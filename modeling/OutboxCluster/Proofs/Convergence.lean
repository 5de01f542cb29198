import OutboxCluster.Proofs.Shard
import OutboxCluster.Proofs.Steady
import Mathlib.Data.List.Nodup

/-!
# Convergence of Dynamic Sharding

If no agent comes or goes, three rounds are enough. It does not matter in what state the
agents begin, in which order they pulse, nor how often one of them does so while another
waits.

After the first round every link has a live record and no other record is left, so the
members are settled (`Enlisted`). After the second one every record has the shard that
its place among the members gives it (`Placed`), because that shard is recorded whether
or not a peer is in the way. Now the shards are different ones of one total, so nobody is
in anybody's way, and in the third round all begin to run (`Settled`). There is no
circular wait, since an agent waits for those only that claim its shard or another total,
and after the second round nobody does.

From then on a pulse writes what the record says already, up to the lease and to what the
agent has seen.

## Main definitions

* `Roster.Enlisted`, `Roster.Placed`, `Roster.Settled`: A link after the first, the second
  and the third round.
* `Roster.Full`: All links are enlisted and nobody else is.
* `Roster.Balanced`: The links own the hash space together.

## Theorems

* `decideDynamic_eq_of_leaves`: When an agent runs.
* `Full.pulse`: A pulse when all links are enlisted.
* `Full.placed`, `Full.settled`: The second and the third round.
* `Full.balanced`: Settled links own the hash space together.
* `Full.unchanged`: Nothing changes any more.
* `dynamic_agents_converge`: Three rounds are enough.
-/

namespace OutboxCluster

/-- An agent with the shard of its position runs if all peers leave it. -/
theorem decideDynamic_eq_of_leaves {me : Agent} {ids : List Int} {peers : List Agent}
    (hplaced : me.assignment = dynamicAssignment ids me.id)
    (hleaves : ∀ peer ∈ peers, peer.leaves me.assignment = true) :
    decideDynamic me ids peers = { me with state := .running } := by
  rw [hplaced] at hleaves
  unfold decideDynamic
  rw [if_neg (Decidable.not_not.mpr hplaced), if_pos (List.all_eq_true.mpr hleaves)]

/-- Members that have the shards of their positions leave them to each other. -/
theorem Agent.leaves_of_placed {a b : Agent} {ids : List Int} (hlen : ids.length < 4294967296)
    (ha : a.assignment = dynamicAssignment ids a.id)
    (hb : b.assignment = dynamicAssignment ids b.id)
    (hamem : a.id ∈ ids) (hbmem : b.id ∈ ids) (hne : b.id ≠ a.id) :
    b.leaves a.assignment = true := by
  rcases dynamicAssignment_of_mem hamem hlen with ⟨s, hs, hstotal, hsindex⟩
  rcases dynamicAssignment_of_mem hbmem hlen with ⟨s', hs', hstotal', hsindex'⟩
  rw [hs] at ha
  rw [hs'] at hb
  have htotal : s'.total = s.total := UInt32.toNat_inj.mp (hstotal'.trans hstotal.symm)
  -- Different members have different positions.
  have hshard : s' ≠ s := by
    intro heq
    rw [heq, hsindex] at hsindex'
    exact hne ((List.idxOf_inj hamem).mp hsindex').symm
  unfold leaves
  cases b.state with
  | starting | suspended => rfl
  | running =>
      dsimp only
      rw [ha, hb, (assignment_eq_some_iff.mp hb).1, Option.map_some, htotal, Bool.and_eq_true,
        beq_iff_eq, bne_iff_ne]
      exact ⟨rfl, fun heq => hshard (Option.some.inj heq)⟩

namespace Roster

section Rounds

variable {role : String} {names : List String} {lapsed : List Int} {m m' : Roster}

/-- The link has a live record. -/
def Enlisted (role : String) (lapsed : List Int) (name : String) (m : Roster) : Prop :=
  ∃ member a, Stands role lapsed m name member a

/-- The record has the shard that its place among the members gives it. -/
def Placed (role : String) (lapsed : List Int) (name : String) (m : Roster) : Prop :=
  ∃ member a, Stands role lapsed m name member a ∧
    a.assignment = dynamicAssignment (m.agents.roll role) a.id

/-- The agent runs with that shard, and the link says so. -/
def Settled (role : String) (lapsed : List Int) (name : String) (m : Roster) : Prop :=
  ∃ member a, Stands role lapsed m name member a ∧
    a.assignment = dynamicAssignment (m.agents.roll role) a.id ∧ a.state = .running ∧
    member.link.snapshot.claim = (some a.id, .running, a.assignment)

/-- All links are enlisted and nobody else is. -/
structure Full (role : String) (names : List String) (lapsed : List Int) (m : Roster) : Prop where
  gathered : Gathered role names lapsed m
  cleared : ∀ id ∈ m.agents.roll role, id ∉ lapsed
  enlisted : ∀ name ∈ names, Enlisted role lapsed name m

theorem Quiet.enlisted (h : Quiet role lapsed m m') {name : String}
    (hbefore : Enlisted role lapsed name m) : Enlisted role lapsed name m' := by
  rcases hbefore with ⟨member, a, hstands⟩
  rcases h.stands name member a hstands with ⟨member', expiration, hstands', _⟩
  exact ⟨member', _, hstands'⟩

theorem Quiet.placed (h : Quiet role lapsed m m') {name : String}
    (hbefore : Placed role lapsed name m) : Placed role lapsed name m' := by
  rcases hbefore with ⟨member, a, hstands, hplaced⟩
  rcases h.stands name member a hstands with ⟨member', expiration, hstands', _⟩
  refine ⟨member', _, hstands', ?_⟩
  rw [h.roll]
  exact hplaced

theorem Quiet.settled (h : Quiet role lapsed m m') {name : String}
    (hbefore : Settled role lapsed name m) : Settled role lapsed name m' := by
  rcases hbefore with ⟨member, a, hstands, hplaced, hrun, hclaim⟩
  rcases h.stands name member a hstands with ⟨member', expiration, hstands', hclaim'⟩
  refine ⟨member', _, hstands', ?_, hrun, hclaim'.trans hclaim⟩
  rw [h.roll]
  exact hplaced

section Enlist

variable {e : Event} (hinv : Gathered role names lapsed m) (h : Steady role names lapsed m e)

include hinv h

/-- No steady event takes a live record away. -/
theorem enlisted_kept {name : String} (hbefore : Enlisted role lapsed name m) :
    Enlisted role lapsed name (m.step e).1 := by
  have hord := hinv.separate.ordered
  rcases steady_cases hinv h with ⟨_, hquiet⟩ | ⟨name', hname', _, member, _, _, me, hpulsed⟩
  · exact hquiet.enlisted hbefore
  · by_cases hne : name = name'
    · subst hne
      rcases hinv.dynamic name hname' with ⟨member₀, hfind, hrole, _⟩
      rw [← Option.some.inj (hpulsed.found.symm.trans hfind)] at hrole
      exact ⟨_, me, Stands.pulse hord hpulsed hrole hinv.known⟩
    · rcases hbefore with ⟨member₀, a, hstands⟩
      have hsep := separate_step hinv.separate (commits_of_steady hord h)
      exact ⟨member₀, a, hstands.spared hord hsep hpulsed hne⟩

/-- A pulse enlists the link, and leaves no record of which the lease is over. -/
theorem enlisted_of_pulse {name : String} (hactor : e.pulser? = some name) :
    Enlisted role lapsed name (m.step e).1 ∧ ∀ id ∈ (m.step e).1.agents.roll role, id ∉ lapsed := by
  have hord := hinv.separate.ordered
  rcases steady_cases hinv h with ⟨hnone, _⟩ | ⟨name', hname', hactor', member, _, _, me, hpulsed⟩
  · exact nomatch hnone.symm.trans hactor
  · have hsame : name' = name := Option.some.inj (hactor'.symm.trans hactor)
    subst hsame
    rcases hinv.dynamic name' hname' with ⟨member₀, hfind, hrole, _⟩
    rw [← Option.some.inj (hpulsed.found.symm.trans hfind)] at hrole
    exact ⟨⟨_, me, Stands.pulse hord hpulsed hrole hinv.known⟩,
      hpulsed.cleared hord hrole hinv.known⟩

/-- Where no record is left of which the lease is over, none comes. -/
theorem cleared_kept (hbefore : ∀ id ∈ m.agents.roll role, id ∉ lapsed) :
    ∀ id ∈ (m.step e).1.agents.roll role, id ∉ lapsed := by
  rcases steady_cases hinv h with ⟨_, hquiet⟩ | ⟨name, _, hactor, _⟩
  · rw [hquiet.roll]
    exact hbefore
  · exact (enlisted_of_pulse hinv h hactor).2

end Enlist

namespace Full

variable {name : String} {member member' : Member} {now : Int} {me : Agent}

/-- Whoever is on the roll is one of the links. -/
theorem exists_stands (hfull : Full role names lapsed m) {a : Agent} (ha : m.agents.Holds a)
    (hrole : a.role = role) : ∃ name ∈ names, ∃ member, Stands role lapsed m name member a := by
  have hmem := ha.mem_roll hrole
  have hlive := hfull.cleared a.id hmem
  rcases hfull.gathered.owned a.id hmem hlive with ⟨name, hname, hself⟩
  rcases hfull.enlisted name hname with ⟨member, b, hstands⟩
  rw [selfId?_of_find? hstands.found, hstands.own, Option.some.injEq] at hself
  have hsame : b = a :=
    AgentTable.Holds.eq_of_id_eq hfull.gathered.separate.ordered hstands.held ha hself
  exact ⟨name, hname, member, hsame ▸ hstands⟩

/-- The members are as many as the links. -/
theorem roll_perm (hfull : Full role names lapsed m) (hnodup : names.Nodup) :
    (names.filterMap m.selfId?).Perm (m.agents.roll role) ∧
      (m.agents.roll role).length = names.length := by
  have hord := hfull.gathered.separate.ordered
  have hself : ∀ name ∈ names, ∃ member a, Stands role lapsed m name member a ∧
      m.selfId? name = some a.id := by
    intro name hname
    rcases hfull.enlisted name hname with ⟨member, a, hstands⟩
    exact ⟨member, a, hstands, (selfId?_of_find? hstands.found).trans hstands.own⟩
  have hperm : (names.filterMap m.selfId?).Perm (m.agents.roll role) := by
    refine (List.perm_ext_iff_of_nodup ?_ ?_).mpr (fun id => ?_)
    · -- No two links remember one id.
      refine List.Nodup.filterMap (fun name name' id hid hid' => ?_) hnodup
      rw [Option.mem_def] at hid hid'
      rcases Option.bind_eq_some_iff.mp hid with ⟨member, hfind, hown⟩
      rcases Option.bind_eq_some_iff.mp hid' with ⟨member', hfind', hown'⟩
      exact hfull.gathered.separate.distinct hfind hfind' hown hown'
    · exact (AgentTable.roll_ascending hord).imp Int.ne_of_lt
    · rw [List.mem_filterMap]
      constructor
      · rintro ⟨name, hname, hid⟩
        rcases hself name hname with ⟨member, a, hstands, hown⟩
        rw [hown, Option.some.injEq] at hid
        exact hid ▸ hstands.held.mem_roll hstands.role_eq
      · intro hid
        exact hfull.gathered.owned id hid (hfull.cleared id hid)
  refine ⟨hperm, ?_⟩
  rw [← hperm.length_eq, List.filterMap_length_eq_length]
  intro name hname
  rcases hself name hname with ⟨_, _, _, hown⟩
  rw [hown]
  rfl

/-- What a pulse does when all links are enlisted: the agent decides from the roll and
    overwrites its record. -/
theorem pulse (hfull : Full role names lapsed m) (hname : name ∈ names)
    (h : Pulsed role lapsed m m' name member member' now me) :
    ∃ a peers, Stands role lapsed m name member a ∧
      (∀ peer ∈ peers, m.agents.Holds peer ∧ peer.role = role ∧ peer.id ≠ a.id) ∧
      (∃ expiration payload, me =
        { decideDynamic a (m.agents.roll role) peers with expiration, payload }) ∧
      m'.agents = m.agents.overwrite me := by
  rcases hfull.enlisted name hname with ⟨member₀, a, hstands⟩
  rcases hfull.gathered.dynamic name hname with ⟨member₁, hfind, hrole, hconf⟩
  rw [← Option.some.inj (h.found.symm.trans hstands.found)] at hstands
  rw [← Option.some.inj (h.found.symm.trans hfind)] at hrole hconf
  -- Everything that was over has been cleared away, so this pulse reclaims nothing.
  have hlive : ∀ p ∈ m.agents.rows, p.2.role = member.link.role → ¬ p.2.expiration < now := by
    intro p hp hprole hexpired
    rw [hrole] at hprole
    exact hfull.cleared p.1 (AgentTable.mem_roll.mpr ⟨p.2, hp, hprole⟩)
      ((h.over_at p hp hprole).mp hexpired)
  rcases h.writes.settles hfull.gathered.separate.ordered hstands.held
    (hstands.role_eq.trans hrole.symm) hstands.own hlive with ⟨agents, hlist, hme, hm'⟩
  refine ⟨a, agents.filter (·.id ≠ a.id), hstands, fun peer hpeer => ?_,
    ⟨member.link.leaseEnd now, some (ClusterView.payload ⟨agents.map (·.id), now⟩), ?_⟩, hm'⟩
  · rcases List.mem_filter.mp hpeer with ⟨hmem, hne⟩
    have hheld := (AgentTable.mem_list_iff hlist).mp hmem
    exact ⟨hheld.1, hheld.2.trans hrole, of_decide_eq_true hne⟩
  · rw [hrole] at hlist
    rw [hme, Link.decision, hconf, AgentTable.roll_eq_of_list hlist]
    rfl

/-- Who has pulsed is placed. -/
theorem placed_of_pulse (hfull : Full role names lapsed m) (hname : name ∈ names)
    (h : Pulsed role lapsed m m' name member member' now me) : Placed role lapsed name m' := by
  have hord := hfull.gathered.separate.ordered
  rcases hfull.pulse hname h with ⟨a, peers, hstands, _, ⟨expiration, payload, hme⟩, hm'⟩
  rcases hfull.gathered.dynamic name hname with ⟨member₁, hfind, hrole, _⟩
  rw [← Option.some.inj (h.found.symm.trans hfind)] at hrole
  refine ⟨member', me, Stands.pulse hord h hrole hfull.gathered.known, ?_⟩
  have hid : me.id = a.id :=
    h.writes.keeps_id hstands.own hstands.held (hstands.role_eq.trans hrole.symm)
      (fun hexpired => hstands.live ((h.over_at _ hstands.held hstands.role_eq).mp hexpired))
  rw [hm', AgentTable.roll_overwrite, hid]
  have hassigned : me.assignment = (decideDynamic a (m.agents.roll role) peers).assignment := by
    rw [hme]
    rfl
  rw [hassigned, decideDynamic_assignment]

/-- Who has pulsed when all are placed runs, and its record is otherwise as before. -/
theorem settled_of_pulse (hfull : Full role names lapsed m)
    (hlen : (m.agents.roll role).length < 4294967296)
    (hplaced : ∀ name ∈ names, Placed role lapsed name m) (hname : name ∈ names)
    (h : Pulsed role lapsed m m' name member member' now me) :
    Settled role lapsed name m' ∧ ∃ a, Stands role lapsed m name member a ∧ me.id = a.id ∧
      me.state = .running ∧ me.total = a.total ∧ me.index = a.index ∧
      m'.agents = m.agents.overwrite me := by
  have hord := hfull.gathered.separate.ordered
  -- Whatever the table holds of the role has the shard of its position.
  have hall : ∀ b, m.agents.Holds b → b.role = role →
      b.assignment = dynamicAssignment (m.agents.roll role) b.id := by
    intro b hb hbrole
    rcases hfull.exists_stands hb hbrole with ⟨name₀, hname₀, member₀, hstands₀⟩
    rcases hplaced name₀ hname₀ with ⟨member₁, c, hstands₁, hc⟩
    have hmember := Option.some.inj (hstands₁.found.symm.trans hstands₀.found)
    subst hmember
    have hid : c.id = b.id := Option.some.inj (hstands₁.own.symm.trans hstands₀.own)
    rw [AgentTable.Holds.eq_of_id_eq hord hstands₁.held hb hid] at hc
    exact hc
  rcases hfull.pulse hname h with ⟨a, peers, hstands, hpeers, ⟨expiration, payload, hme⟩, hm'⟩
  have ha := hall a hstands.held hstands.role_eq
  rw [decideDynamic_eq_of_leaves ha (fun peer hpeer => ?_)] at hme
  · refine ⟨?_, a, hstands, by rw [hme], by rw [hme], by rw [hme], by rw [hme], hm'⟩
    rcases hfull.placed_of_pulse hname h with ⟨member₀, b, hstands', hb⟩
    have hmember := Option.some.inj (hstands'.found.symm.trans h.found')
    subst hmember
    have hid : b.id = me.id := Option.some.inj (hstands'.own.symm.trans h.own)
    have hsame : b = me := by
      refine AgentTable.Holds.eq_of_id_eq ?_ hstands'.held (h.writes.holds hord) hid
      exact h.writes.ordered hord
    subst hsame
    refine ⟨member₀, b, hstands', hb, by rw [hme], ?_⟩
    rw [h.claim]
    simp only [hme]
  · rcases hpeers peer hpeer with ⟨hheld, hprole, hne⟩
    exact Agent.leaves_of_placed hlen ha (hall peer hheld hprole)
      (hstands.held.mem_roll hstands.role_eq) (hheld.mem_roll hprole) hne

section Step

variable {e : Event} (hfull : Full role names lapsed m) (h : Steady role names lapsed m e)

include hfull h

/-- Steady events keep all links enlisted. -/
theorem step : Full role names lapsed (m.step e).1 where
  gathered := gathered_step hfull.gathered h
  cleared := cleared_kept hfull.gathered h hfull.cleared
  enlisted := fun name hname => enlisted_kept hfull.gathered h (hfull.enlisted name hname)

/-- When all links are enlisted the members are settled. -/
theorem roll_step : (m.step e).1.agents.roll role = m.agents.roll role := by
  rcases steady_cases hfull.gathered h with ⟨_, hquiet⟩ |
    ⟨name, hname, _, _, _, _, _, hpulsed⟩
  · exact hquiet.roll
  · rcases hfull.pulse hname hpulsed with ⟨_, _, _, _, _, hm'⟩
    rw [hm', AgentTable.roll_overwrite]

/-- Links that do not pulse stay placed, and so do those that do. -/
theorem placed_kept (hbefore : Placed role lapsed name m) :
    Placed role lapsed name (m.step e).1 := by
  have hroll := hfull.roll_step h
  rcases steady_cases hfull.gathered h with ⟨_, hquiet⟩ |
    ⟨name', hname', _, _, _, _, _, hpulsed⟩
  · exact hquiet.placed hbefore
  · by_cases hne : name = name'
    · subst hne
      exact hfull.placed_of_pulse hname' hpulsed
    · rcases hbefore with ⟨member₀, a, hstands, hplaced⟩
      refine ⟨member₀, a, hstands.spared hfull.gathered.separate.ordered
        (hfull.step h).gathered.separate hpulsed hne, ?_⟩
      rw [hroll]
      exact hplaced

variable (hlen : names.length < 4294967296) (hnodup : names.Nodup)
  (hplaced : ∀ name ∈ names, Placed role lapsed name m)

include hlen hnodup hplaced

/-- Links that do not pulse stay settled, and those that do settle. -/
theorem settled_kept (hbefore : Settled role lapsed name m ∨ e.pulser? = some name) :
    Settled role lapsed name (m.step e).1 := by
  have hroll := hfull.roll_step h
  have hlen' : (m.agents.roll role).length < 4294967296 := by
    rw [(hfull.roll_perm hnodup).2]
    exact hlen
  rcases steady_cases hfull.gathered h with ⟨hnone, hquiet⟩ |
    ⟨name', hname', hactor, _, _, _, _, hpulsed⟩
  · exact hquiet.settled (hbefore.resolve_right (fun hactor => nomatch hnone.symm.trans hactor))
  · by_cases hne : name = name'
    · subst hne
      exact (hfull.settled_of_pulse hlen' hplaced hname' hpulsed).1
    · have hother : e.pulser? ≠ some name := by
        intro heq
        exact hne (Option.some.inj (heq.symm.trans hactor))
      rcases hbefore.resolve_right hother with ⟨member₀, a, hstands, ha, hrun, hclaim⟩
      refine ⟨member₀, a, hstands.spared hfull.gathered.separate.ordered
        (hfull.step h).gathered.separate hpulsed hne, ?_, hrun, hclaim⟩
      rw [hroll]
      exact ha

/-- When all links are settled nobody changes a claim, in the table or in what is
    published. -/
theorem claims_step (hsettled : ∀ name ∈ names, Settled role lapsed name m) :
    (m.step e).1.agents.claims = m.agents.claims ∧ ∀ name ∈ names,
      ((m.step e).1.snapshot? name).map Snapshot.claim =
        (m.snapshot? name).map Snapshot.claim := by
  have hlen' : (m.agents.roll role).length < 4294967296 := by
    rw [(hfull.roll_perm hnodup).2]
    exact hlen
  rcases steady_cases hfull.gathered h with ⟨_, hquiet⟩ |
    ⟨name', hname', _, member, member', _, me, hpulsed⟩
  · refine ⟨hquiet.claims, fun name hname => ?_⟩
    rcases hfull.enlisted name hname with ⟨member, a, hstands⟩
    rcases hquiet.stands name member a hstands with ⟨member', _, hstands', hclaim⟩
    rw [snapshot?_of_find? hstands.found, snapshot?_of_find? hstands'.found, Option.map_some,
      Option.map_some, hclaim]
  · rcases hfull.settled_of_pulse hlen' hplaced hname' hpulsed with
      ⟨_, a, hstands, hid, hrun, htotal, hindex, hm'⟩
    rcases hsettled name' hname' with ⟨member₀, b, hstands₀, _, hbrun, hclaim⟩
    have hmember := Option.some.inj (hstands₀.found.symm.trans hstands.found)
    subst hmember
    -- What it writes is what it had written before.
    have hsame : b = a := by
      refine AgentTable.Holds.eq_of_id_eq hfull.gathered.separate.ordered hstands₀.held
        hstands.held ?_
      exact Option.some.inj (hstands₀.own.symm.trans hstands.own)
    subst hsame
    refine ⟨?_, fun name hname => ?_⟩
    · rw [hm']
      exact AgentTable.claims_overwrite hfull.gathered.separate.ordered hstands.held hid
        (hrun.trans hbrun.symm) htotal hindex
    · by_cases hne : name = name'
      · subst hne
        rw [snapshot?_of_find? hpulsed.found', snapshot?_of_find? hpulsed.found, Option.map_some,
          Option.map_some, hpulsed.claim, hclaim, hid, hrun]
        have hassigned : me.assignment = b.assignment := by
          rw [Agent.assignment, Agent.assignment, htotal, hindex]
        rw [hassigned]
      · rw [snapshot?, snapshot?, hpulsed.others name hne]

end Step

end Full

/-- The links run with the shards of one total that the ranks of their records give them,
    and every hash is owned by exactly one of them. -/
structure Balanced (names : List String) (m : Roster) : Prop where
  ranked : ∀ name ∈ names, ∃ snapshot id s, m.snapshot? name = some snapshot ∧
    m.selfId? name = some id ∧ snapshot.claim = (some id, .running, some s) ∧
    s.total.toNat = names.length ∧
    s.index.toNat = (names.filterMap m.selfId?).countP (· < id)
  owned : ∀ hash, ∃ owner ∈ names, ∀ name ∈ names,
    (∃ snapshot s, m.snapshot? name = some snapshot ∧ snapshot.state = .running ∧
      snapshot.assignment = some s ∧ s.contains hash = true) ↔ name = owner

/-- Settled links own the hash space together. -/
theorem Full.balanced (hfull : Full role names lapsed m) (hne : names ≠ [])
    (hlen : names.length < 4294967296) (hnodup : names.Nodup)
    (hsettled : ∀ name ∈ names, Settled role lapsed name m) : Balanced names m := by
  have hord := hfull.gathered.separate.ordered
  have hasc : (m.agents.roll role).Pairwise (· < ·) := AgentTable.roll_ascending hord
  rcases hfull.roll_perm hnodup with ⟨hperm, hcount⟩
  rw [← hcount] at hlen
  -- What each of them publishes, and that it is the shard of its record.
  have hpublished : ∀ name ∈ names, ∃ snapshot id, m.snapshot? name = some snapshot ∧
      m.selfId? name = some id ∧ id ∈ m.agents.roll role ∧
      snapshot.claim = (some id, .running, dynamicAssignment (m.agents.roll role) id) := by
    intro name hname
    rcases hsettled name hname with ⟨member, a, hstands, ha, _, hclaim⟩
    rw [ha] at hclaim
    exact ⟨_, a.id, snapshot?_of_find? hstands.found,
      (selfId?_of_find? hstands.found).trans hstands.own, hstands.held.mem_roll hstands.role_eq,
      hclaim⟩
  refine ⟨fun name hname => ?_, fun hash => ?_⟩
  · rcases hpublished name hname with ⟨snapshot, id, hsnapshot, hself, hmem, hclaim⟩
    rcases dynamicAssignment_of_mem hmem hlen with ⟨s, hs, htotal, hindex⟩
    rw [hs] at hclaim
    refine ⟨snapshot, id, s, hsnapshot, hself, hclaim, htotal.trans hcount, ?_⟩
    rw [hindex, idxOf_eq_countP hasc hmem, hperm.countP_eq]
  · have hroll : m.agents.roll role ≠ [] := by
      intro hnil
      rw [hnil] at hcount
      exact hne (List.length_eq_zero_iff.mp hcount.symm)
    rcases exists_owner (hasc.imp Int.ne_of_lt) hroll hlen hash with ⟨id, hid, howner⟩
    rcases hfull.gathered.owned id hid (hfull.cleared id hid) with ⟨owner, hname, hself⟩
    refine ⟨owner, hname, fun name hname' => ?_⟩
    rcases hpublished name hname' with ⟨snapshot, id', hsnapshot, hself', hmem, hclaim⟩
    simp only [Snapshot.claim, Prod.mk.injEq] at hclaim
    constructor
    · rintro ⟨snapshot', s, hsnapshot', _, hs, hcontains⟩
      have hsame : snapshot = snapshot' := Option.some.inj (hsnapshot.symm.trans hsnapshot')
      subst hsame
      -- It owns the shard of the hash, so its record is that of the owner.
      have hid' := (howner id' hmem).mp ⟨s, hclaim.2.2.symm.trans hs, hcontains⟩
      subst hid'
      rcases Option.bind_eq_some_iff.mp hself with ⟨member, hfind, hown⟩
      rcases Option.bind_eq_some_iff.mp hself' with ⟨member', hfind', hown'⟩
      exact hfull.gathered.separate.distinct hfind' hfind hown' hown
    · rintro rfl
      have hid' : id' = id := Option.some.inj (hself'.symm.trans hself)
      rcases (howner id' hmem).mpr hid' with ⟨s, hs, hcontains⟩
      exact ⟨snapshot, s, hsnapshot, hclaim.2.1, hclaim.2.2.trans hs, hcontains⟩

/-- Nothing changes any more when all links are settled. -/
theorem Full.unchanged (hfull : Full role names lapsed m) (hlen : names.length < 4294967296)
    (hnodup : names.Nodup) (hsettled : ∀ name ∈ names, Settled role lapsed name m)
    {further : List Event} (h : Along (Steady role names lapsed) m further) :
    (m.run further).agents.claims = m.agents.claims ∧ ∀ name ∈ names,
      ((m.run further).snapshot? name).map Snapshot.claim =
        (m.snapshot? name).map Snapshot.claim := by
  have hplaced : ∀ m, (∀ name ∈ names, Settled role lapsed name m) →
      ∀ name ∈ names, Placed role lapsed name m := by
    intro m hsettled name hname
    rcases hsettled name hname with ⟨member, a, hstands, ha, _⟩
    exact ⟨member, a, hstands, ha⟩
  induction further generalizing m with
  | nil => exact ⟨rfl, fun _ _ => rfl⟩
  | cons e further ih =>
      rcases hfull.claims_step h.1 hlen hnodup (hplaced m hsettled) hsettled with
        ⟨hclaims, hpublished⟩
      have hsettled' : ∀ name ∈ names, Settled role lapsed name (m.step e).1 :=
        fun name hname => hfull.settled_kept h.1 hlen hnodup (hplaced m hsettled)
          (Or.inl (hsettled name hname))
      rcases ih (hfull.step h.1) hsettled' h.2 with ⟨hrest, hrestPublished⟩
      exact ⟨hrest.trans hclaims,
        fun name hname => (hrestPublished name hname).trans (hpublished name hname)⟩

section Blocks

variable {block : List Event} (h : Along (Steady role names lapsed) m block)
  (hpulse : ∀ name ∈ names, name ∈ block.filterMap Event.pulser?)

include h hpulse

/-- The first round enlists all links. -/
theorem Gathered.full (hinv : Gathered role names lapsed m) (hne : names ≠ []) :
    Full role names lapsed (m.run block) where
  gathered := h.invariant hinv (fun _ _ => gathered_step)
  cleared := by
    rcases List.exists_mem_of_ne_nil names hne with ⟨name, hname⟩
    exact h.block (Q := fun _ m => ∀ id ∈ m.agents.roll role, id ∉ lapsed) hinv
      (fun _ _ => gathered_step) (fun _ _ _ => cleared_kept)
      (fun _ _ _ hinv h hactor => (enlisted_of_pulse hinv h hactor).2) (hpulse name hname)
  enlisted := fun name hname => h.block (Q := Enlisted role lapsed) hinv
    (fun _ _ => gathered_step) (fun _ _ _ hinv h hbefore => enlisted_kept hinv h hbefore)
    (fun _ _ _ hinv h hactor => (enlisted_of_pulse hinv h hactor).1) (hpulse name hname)

/-- The second round places all links. -/
theorem Full.placed (hfull : Full role names lapsed m) : ∀ name ∈ names,
    Placed role lapsed name (m.run block) := by
  refine fun name hname => h.block (Q := Placed role lapsed) hfull (fun _ _ hfull h => hfull.step h)
    (fun _ _ _ hfull h => hfull.placed_kept h) (fun m e name hfull h hactor => ?_)
    (hpulse name hname)
  rcases steady_cases hfull.gathered h with ⟨hnone, _⟩ |
    ⟨name', hname', hactor', _, _, _, _, hpulsed⟩
  · exact nomatch hnone.symm.trans hactor
  · have hsame : name' = name := Option.some.inj (hactor'.symm.trans hactor)
    subst hsame
    exact hfull.placed_of_pulse hname' hpulsed

/-- The third round settles all links. -/
theorem Full.settled (hfull : Full role names lapsed m) (hlen : names.length < 4294967296)
    (hnodup : names.Nodup) (hplaced : ∀ name ∈ names, Placed role lapsed name m) :
    ∀ name ∈ names, Settled role lapsed name (m.run block) :=
  fun name hname => h.block (Q := Settled role lapsed)
    (P := fun m => Full role names lapsed m ∧ ∀ name ∈ names, Placed role lapsed name m)
    ⟨hfull, hplaced⟩
    (fun _ _ hinv h => ⟨hinv.1.step h, fun name hname => hinv.1.placed_kept h (hinv.2 name hname)⟩)
    (fun _ _ _ hinv h hbefore => hinv.1.settled_kept h hlen hnodup hinv.2 (Or.inl hbefore))
    (fun _ _ _ hinv h hactor => hinv.1.settled_kept h hlen hnodup hinv.2 (Or.inr hactor))
    (hpulse name hname)

end Blocks

end Rounds

/-- Links of a role that are left to themselves share the hash space after three rounds,
    whatever has happened before, as long as nothing was taken back: in every round each
    of them has pulsed at least once, no attempt has failed and no lease has ended. From
    then on nothing changes. -/
theorem dynamic_agents_converge (role : String) (wall : WallClock) (before : List Event)
    (hbefore : Along Commits { wall } before) (names : List String) (hne : names ≠ [])
    (hlen : names.length < 4294967296) (hnodup : names.Nodup)
    (hlinks : ∀ name ∈ names, ∃ member, (({ wall } : Roster).run before).find? name = some member ∧
      member.link.role = role ∧ member.link.configured = none)
    (hlive : ∀ id ∈ (({ wall } : Roster).run before).agents.roll role,
      id ∉ (({ wall } : Roster).run before).overdue role →
        ∃ name ∈ names, (({ wall } : Roster).run before).selfId? name = some id)
    (first second third further : List Event)
    (hpulse : ∀ block ∈ [first, second, third], ∀ name ∈ names,
      name ∈ block.filterMap Event.pulser?)
    (hsteady : Along (Steady role names ((({ wall } : Roster).run before).overdue role))
      (({ wall } : Roster).run before) (first ++ second ++ third ++ further)) :
    Balanced names ((({ wall } : Roster).run before).run (first ++ second ++ third)) ∧
      ((({ wall } : Roster).run before).run (first ++ second ++ third ++ further)).agents.claims =
        ((({ wall } : Roster).run before).run (first ++ second ++ third)).agents.claims ∧
      ∀ name ∈ names,
        (((({ wall } : Roster).run before).run (first ++ second ++ third ++ further)).snapshot?
            name).map Snapshot.claim =
          (((({ wall } : Roster).run before).run (first ++ second ++ third)).snapshot? name).map
            Snapshot.claim := by
  have hsep : Separate (({ wall } : Roster).run before) :=
    hbefore.invariant (separate_init wall) (fun _ _ => separate_step)
  generalize ({ wall } : Roster).run before = m at hsep hlinks hlive hsteady ⊢
  have hknown : ∀ id ∈ m.overdue role, id ≤ m.agents.lastId := by
    intro id hid
    rcases List.mem_map.mp hid with ⟨p, hp, rfl⟩
    exact hsep.ordered.le_lastId p (List.mem_filter.mp hp).1
  have hgathered : Gathered role names (m.overdue role) m := ⟨hsep, hlinks, hknown, hlive⟩
  rcases along_append.mp hsteady with ⟨hrounds, hfurther⟩
  rcases along_append.mp hrounds with ⟨hrounds', hthird⟩
  rcases along_append.mp hrounds' with ⟨hfirst, hsecond⟩
  -- The first round registers everyone, the second gives everyone the place to be kept, and in
  -- the third those run that had a holder to wait for.
  have hfull := hgathered.full hfirst (hpulse first (by simp)) hne
  have hplaced := hfull.placed hsecond (hpulse second (by simp))
  have hfull' : Full role names (m.overdue role) ((m.run first).run second) :=
    hsecond.invariant hfull (fun _ _ hfull h => hfull.step h)
  rw [run_append m] at hthird
  rw [run_append m, run_append m] at hfurther
  have hsettled := hfull'.settled hthird (hpulse third (by simp)) hlen hnodup hplaced
  have hfull'' : Full role names (m.overdue role) (((m.run first).run second).run third) :=
    hthird.invariant hfull' (fun _ _ hfull h => hfull.step h)
  rw [run_append m _ further, run_append m _ third, run_append m]
  exact ⟨hfull''.balanced hne hlen hnodup hsettled,
    hfull''.unchanged hlen hnodup hsettled hfurther⟩

/-- The lease of one agent is over and it is forgotten, that of another one is over, a
    third one runs and a fourth one has not registered. -/
def scattered : List Event :=
  [.join "d" "r" none 1000, .pulse "d", .crash "d", .join "a" "r" none 5000, .pulse "a",
    .join "b" "r" none 1000, .pulse "b", .advance 2000 2000, .join "c" "r" none 5000]

/-- A round in which agents renew, wait for their sessions and pulse. -/
def meeting : List Event :=
  [.pulse "c", .renew "a", .renew "b", .pulse "b", .advance 10 10, .pulse "a" ⟨4, 3⟩, .pulse "c"]

theorem dynamic_agents_converge_scattered :
    (({ wall := ⟨0⟩ } : Roster).run scattered).overdue "r" = [1, 3] ∧
    Balanced ["a", "b", "c"] ((({ wall := ⟨0⟩ } : Roster).run scattered).run
      (meeting ++ meeting ++ [.pulse "b", .pulse "a", .pulse "c"])) := by
  have hlinks : ∀ name ∈ ["a", "b", "c"],
      ((({ wall := ⟨0⟩ } : Roster).run scattered).find? name).any
        (fun member => member.link.role == "r" && member.link.configured == none) = true := by
    decide +kernel
  refine ⟨by decide +kernel, (dynamic_agents_converge "r" ⟨0⟩ scattered (by decide +kernel)
    ["a", "b", "c"] (by decide) (by decide) (by decide) (fun name hname => ?_) (by decide +kernel)
    meeting meeting [.pulse "b", .pulse "a", .pulse "c"] [.renew "b", .pulse "c", .renew "a"]
    (by decide +kernel) (by decide +kernel)).1⟩
  rcases (Option.any_eq_true _ _).mp (hlinks name hname) with ⟨member, hfind, hmember⟩
  rw [Bool.and_eq_true, beq_iff_eq, beq_iff_eq] at hmember
  exact ⟨member, hfind, hmember⟩

end Roster

end OutboxCluster
