import OutboxCluster.Proofs.Configured
import OutboxCluster.Proofs.Unfailing

/-!
# Configured and Dynamic Agents of One Role

Two ways of sharding meet over one table when links of a role are configured and
others are not. A dynamic agent looks at all running peers before it runs. A
configured one looks only at those that have registered before it, since among
configured agents the later one gives way. A dynamic agent that has registered later
gives way to nobody who waits, and so the two can come to run with one shard: the
dynamic agent starts while the configured one waits, and then the configured one
starts beside it.

That is the only way. Whoever shares a shard, the earlier record is that of a
configured agent that a pulse has left waiting, and the later one is that of a
dynamic agent (`mixed_records_apart`). So two configured agents never share a shard,
nor do two dynamic ones, nor a dynamic agent with a configured one that came after
it or has never had to wait.

A record does not say whether its agent is configured, and the agent may be long
gone. The census of a run remembers it, and who had to wait.

## Main definitions

* `Roster.Census`: The ids of configured agents, and of those that had to wait.
* `Roster.census`: The census of a run.
* `Roster.Wrote`, `Roster.Carried`: A pulse came through, or none did.
* `AgentTable.Mixed`: What the census says of the records.
* `Roster.Mingled`: The invariant.

## Theorems

* `wrote_or_carried`: What an event can do to records and to remembered ids.
* `Mixed.write`, `Mixed.carry`: The records after a pulse, and without one.
* `mingled_step`: Every event keeps the invariant.
* `mixed_records_apart`: Who can share a shard.
* `mingling_shares_shard`: Two agents that do.
-/

namespace OutboxCluster

namespace Roster

/-- An event that puts in no record of the role from outside. -/
def Event.PutsOther (role : String) : Event → Prop
  | .put row => row.role ≠ role
  | _ => True

instance (role : String) : ∀ e : Event, Decidable (e.PutsOther role)
  | .put row => inferInstanceAs (Decidable (row.role ≠ role))
  | .join .. | .pulse .. | .renew .. | .leave _ | .crash _ | .arm .. | .close _ | .advance ..
  | .setClock _ | .delete _ => .isTrue trivial

/-- The ids under which configured links have pulsed. -/
structure Census where
  configured : List Int := []
  /-- Those of agents that a pulse has left waiting. -/
  waited : List Int := []

/-- The census after a pulse that has left this link. -/
def Census.count (c : Census) (l : Link) : Census :=
  match l.configured, l.selfId with
  | some _, some id =>
    { configured := id :: c.configured
      waited := if l.snapshot.state = .starting then id :: c.waited else c.waited }
  | _, _ => c

/-- The census after an event that has left this state. -/
def Census.note (c : Census) (e : Event) (m' : Roster) : Census :=
  match e with
  | .pulse name _ =>
    match m'.find? name with
    | some member => c.count member.link
    | none => c
  | _ => c

/-- The census of a run. -/
def census (m : Roster) (c : Census) : List Event → Census
  | [] => c
  | e :: es => census (m.step e).1 (c.note e (m.step e).1) es

namespace Census

variable {c : Census} {l : Link} {id : Int}

theorem mem_count : id ∈ (c.count l).configured ↔
    (l.configured.isSome = true ∧ l.selfId = some id) ∨ id ∈ c.configured := by
  unfold count
  cases l.configured with
  | none => simp
  | some s =>
      cases l.selfId with
      | none => simp
      | some own => simp [eq_comm]

theorem mem_count_waited (h : id ∈ c.waited) : id ∈ (c.count l).waited := by
  unfold count
  split
  · dsimp only
    split
    · exact List.mem_cons_of_mem _ h
    · exact h
  · exact h

/-- A configured agent that a pulse has left waiting. -/
theorem mem_waited (hconf : l.configured.isSome = true) (hself : l.selfId = some id)
    (hstate : l.snapshot.state = .starting) : id ∈ (c.count l).waited := by
  rcases Option.isSome_iff_exists.mp hconf with ⟨s, hs⟩
  unfold count
  rw [hs, hself]
  dsimp only
  rw [if_pos hstate]
  exact List.mem_cons_self

variable {e : Event} {m' : Roster}

theorem note_mono (h : id ∈ c.configured) : id ∈ (c.note e m').configured := by
  unfold note
  split
  · split
    · exact mem_count.mpr (Or.inr h)
    · exact h
  · exact h

theorem note_waited (h : id ∈ c.waited) : id ∈ (c.note e m').waited := by
  unfold note
  split
  · split
    · exact mem_count_waited h
    · exact h
  · exact h

/-- A new id in the census is remembered by a configured link. -/
theorem cases_note (h : id ∈ (c.note e m').configured) :
    id ∈ c.configured ∨ ∃ name member, m'.find? name = some member ∧
      member.link.selfId = some id ∧ member.link.configured.isSome = true := by
  unfold note at h
  split at h
  · split at h
    · rename_i member hfind
      rcases mem_count.mp h with ⟨hconf, hself⟩ | hbefore
      · exact Or.inr ⟨_, member, hfind, hself, hconf⟩
      · exact Or.inl hbefore
    · exact Or.inl h
  · exact Or.inl h

end Census

/-- A pulse of the link came through and wrote the record of `me`. -/
structure Wrote (m : Roster) (name : String) (member : Member) (now : Int) (me : Agent)
    (m' : Roster) : Prop where
  found : m.find? name = some member
  writes : member.link.Writes now m.agents me m'.agents
  after : ∃ member', m'.find? name = some member' ∧ member'.link.selfId = some me.id ∧
    member'.link.role = member.link.role ∧ member'.link.configured = member.link.configured ∧
    member'.link.snapshot.state = me.state
  others : ∀ name', name' ≠ name → m'.find? name' = m.find? name'

/-- Nobody has registered, and no agent of the role has changed up to the end of its
    lease. -/
structure Carried (role : String) (m m' : Roster) : Prop where
  lastId_le : m.agents.lastId ≤ m'.agents.lastId
  proper : m.agents.Proper role → m'.agents.Proper role
  back : ∀ a, m'.agents.Holds a → a.role = role →
    ∃ expiration, m.agents.Holds { a with expiration }
  members : ∀ name member' id, m'.find? name = some member' → member'.link.selfId = some id →
    ∃ member, m.find? name = some member ∧ member.link.selfId = some id ∧
      member.link.role = member'.link.role ∧ member.link.configured = member'.link.configured

namespace Wrote

variable {m m' : Roster} {name : String} {member : Member} {now : Int} {me : Agent} {c : Census}

/-- The agent is counted if its link is configured. -/
theorem note_eq (h : Wrote m name member now me m') (waited : Waited) :
    ∃ l : Link, l.selfId = some me.id ∧ l.configured = member.link.configured ∧
      l.snapshot.state = me.state ∧ c.note (.pulse name waited) m' = c.count l := by
  rcases h.after with ⟨member', hfind', hself, _, hconf, hstate⟩
  exact ⟨member'.link, hself, hconf, hstate, by rw [Census.note, hfind']⟩

theorem mem_note (h : Wrote m name member now me m') (waited : Waited) {id : Int} :
    id ∈ (c.note (.pulse name waited) m').configured ↔
      (member.link.configured.isSome = true ∧ id = me.id) ∨ id ∈ c.configured := by
  rcases h.note_eq (c := c) waited with ⟨l, hself, hconf, _, hnote⟩
  rw [hnote, Census.mem_count, hself, hconf, Option.some.injEq, eq_comm (a := me.id)]

theorem mem_waited (h : Wrote m name member now me m') (waited : Waited)
    (hsome : member.link.configured.isSome = true) (hstart : me.state = .starting) :
    me.id ∈ (c.note (.pulse name waited) m').waited := by
  rcases h.note_eq (c := c) waited with ⟨l, hself, hconf, hstate, hnote⟩
  rw [hnote]
  exact Census.mem_waited (hconf ▸ hsome) hself (hstate.trans hstart)

end Wrote

section Carried

variable {role : String} {m m' : Roster}

/-- The table has lost rows only, and the links are as before. -/
theorem Carried.of_members (hlast : m.agents.lastId ≤ m'.agents.lastId)
    (hsub : ∀ p ∈ m'.agents.rows, p.2.role = role → p ∈ m.agents.rows)
    (hmembers : ∀ name member' id, m'.find? name = some member' → member'.link.selfId = some id →
      m.find? name = some member') : Carried role m m' where
  lastId_le := hlast
  proper := fun h => h.of_subset hsub
  back := fun a ha hrole => ⟨a.expiration, hsub _ ha hrole⟩
  members := fun name member' id hfind hself =>
    ⟨member', hmembers name member' id hfind hself, hself, rfl, rfl⟩

/-- The table has lost rows only, and one link goes on with its id or without. -/
theorem Carried.of_act {name : String} {member : Member} {l : Link} {access : Access}
    {t' : AgentTable} (hfind : m.find? name = some member) (hlast : m.agents.lastId ≤ t'.lastId)
    (hproper : m.agents.Proper role → t'.Proper role)
    (hback : ∀ a, t'.Holds a → a.role = role → ∃ expiration, m.agents.Holds { a with expiration })
    (hself : l.selfId = none ∨ l.selfId = member.link.selfId)
    (hsame : member.link.role = l.role ∧ member.link.configured = l.configured) :
    Carried role m ({ m with agents := t' }.setMember name { link := l, access }) where
  lastId_le := hlast
  proper := hproper
  back := hback
  members := by
    intro name' member' id hfind' hid
    rcases cases_setMember hfind' with ⟨rfl, rfl⟩ | ⟨_, hbefore⟩
    · rcases hself with hnone | heq
      · exact nomatch hnone.symm.trans hid
      · exact ⟨member, hfind, heq.symm.trans hid, hsame⟩
    · exact ⟨member', hbefore, hid, rfl, rfl⟩

end Carried

/-- Either a pulse came through or nobody has registered, if insertions stay. -/
theorem wrote_or_carried {role : String} {m : Roster} {e : Event} (hord : m.agents.Ordered)
    (hputs : e.PutsOther role) (hcommits : Commits m e) :
    (∃ name waited member now me, e = .pulse name waited ∧
      Wrote m name member now me (m.step e).1) ∨ Carried role m (m.step e).1 := by
  have hout := outcome_step m e
  have hids : ∀ id ∈ registrations (m.step e).2, id ∈ (m.step e).1.agents.ids := hcommits
  generalize (m.step e).1 = m' at hout hids ⊢
  generalize registrations (m.step e).2 = ids at hout hids
  have hrefl : ∀ a, m.agents.Holds a → a.role = role →
      ∃ expiration, m.agents.Holds { a with expiration } := fun a ha _ => ⟨a.expiration, ha⟩
  have hrows : ∀ p ∈ m.agents.rows, p.2.role = role → p ∈ m.agents.rows := fun _ hp _ => hp
  cases hout with
  | absent =>
      exact Or.inr (.of_members (Int.le_refl _) hrows (fun _ _ _ hfind _ => hfind))
  | join =>
      refine Or.inr (.of_members (Int.le_refl _) hrows (fun _ _ _ hfind hself => ?_))
      rcases cases_setMember hfind with ⟨rfl, rfl⟩ | ⟨_, hbefore⟩
      · exact nomatch hself
      · exact hbefore
  | @wrote name waited member _ me _ _ t' hactor hwrites _ =>
      refine Or.inl ⟨name, waited, member, _, me, rfl, hactor, hwrites,
        ⟨_, find?_setMember_self, rfl, rfl, rfl, rfl⟩, fun name' hne => ?_⟩
      rw [find?_setMember, if_neg hne]
      rfl
  | stopped hactor hremembers =>
      refine Or.inr (.of_act hactor (Int.le_refl _) id hrefl ?_ ⟨rfl, rfl⟩)
      -- A record that was inserted would be there.
      cases hremembers with
      | kept => exact Or.inr rfl
      | taken => exact absurd (hids _ (List.mem_singleton_self _)) hord.nextId_not_mem
      | forgotten _ => exact Or.inl rfl
  | renewed hactor hrenews =>
      exact Or.inr (.of_act hactor (Int.le_of_eq hrenews.lastId.symm)
        (fun hproper => hproper.renew hord hrenews)
        (fun _ ha _ => AgentTable.holds_of_renews hord hrenews ha) (Or.inr rfl) ⟨rfl, rfl⟩)
  | refused hactor hlink =>
      refine Or.inr (.of_act hactor (Int.le_refl _) id hrefl ?_ ?_)
      · rcases hlink with rfl | rfl <;> exact Or.inr rfl
      · rcases hlink with rfl | rfl <;> exact ⟨rfl, rfl⟩
  | @left _ _ _ own _ hactor _ htable =>
      rcases htable with rfl | rfl
      · have hgone : ∀ p ∈ (m.agents.delete [own]).rows, p.2.role = role → p ∈ m.agents.rows :=
          fun p hp _ => (Table.mem_delete.mp hp).1
        exact Or.inr (.of_act hactor (Int.le_refl _) (fun hproper => hproper.of_subset hgone)
          (fun a ha hrole => ⟨a.expiration, hgone _ ha hrole⟩) (Or.inl rfl) ⟨rfl, rfl⟩)
      · exact Or.inr (.of_act hactor (Int.le_refl _) id hrefl (Or.inl rfl) ⟨rfl, rfl⟩)
  | kept _ hactor =>
      exact Or.inr (.of_act hactor (Int.le_refl _) id hrefl (Or.inr rfl) ⟨rfl, rfl⟩)
  | crash =>
      refine Or.inr (.of_members (Int.le_refl _) hrows (fun _ _ _ hfind _ => ?_))
      rw [find?_crash] at hfind
      split at hfind
      · cases hfind
      · exact hfind
  | advance | setClock =>
      exact Or.inr (.of_members (Int.le_refl _) hrows (fun _ _ _ hfind _ => hfind))
  | put row =>
      refine Or.inr (.of_members ?_ (fun p hp hrole => ?_) (fun _ _ _ hfind _ => hfind))
      · exact Int.le_of_lt (Int.lt_succ _)
      · rcases Table.mem_insert.mp hp with hbefore | rfl
        · exact hbefore
        · exact absurd hrole hputs
  | delete gone =>
      exact Or.inr (.of_members (Int.le_refl _) (fun p hp _ => (Table.mem_delete.mp hp).1)
        (fun _ _ _ hfind _ => hfind))

end Roster

/-- Equal numbers are those of equal shards. -/
theorem Agent.assignment_eq_of_row {a b : Agent} (htotal : a.row.total = b.row.total)
    (hindex : a.row.index = b.row.index) : a.assignment = b.assignment := by
  have hword : ∀ {x y : Option UInt32}, (x.map fun n => (n.toNat : Int)) =
      (y.map fun n => (n.toNat : Int)) → x = y := by
    intro x y h
    refine Option.map_injective (fun n n' heq => ?_) h
    exact UInt32.toNat_inj.mp (Int.ofNat_inj.mp heq)
  unfold assignment
  rw [hword htotal, hword hindex]

/-- A peer that does not block a shard does not have it if it has registered earlier. -/
theorem Agent.free_of_not_blocks {peer : Agent} {s : Assignment} {id : Int}
    (h : peer.blocks s id = false) (hlt : peer.id < id) : peer.assignment ≠ some s := by
  cases hpeer : peer.assignment with
  | none => exact fun h => nomatch h
  | some s' =>
      rw [← hpeer]
      exact (Agent.of_not_blocks hpeer h).2 hlt

namespace Link

open Roster (Census)

/-- A pulse of the link that wrote `me` leads from one census to another. -/
structure Counts (l : Link) (t : AgentTable) (me : Agent) (c c' : Census) : Prop where
  own : ∀ id, l.selfId = some id → (id ∈ c.configured ↔ l.configured.isSome = true)
  keeps : l.configured.isSome = true → ∀ own, t.Holds own → own.role = l.role →
    l.selfId = some own.id → own.assignment = l.configured
  mem_iff : ∀ id, id ∈ c'.configured ↔
    (l.configured.isSome = true ∧ id = me.id) ∨ id ∈ c.configured
  waited : ∀ id ∈ c.waited, id ∈ c'.waited
  waits : l.configured.isSome = true → me.state = .starting → me.id ∈ c'.waited

variable {l : Link} {now : Int} {t t' : AgentTable} {me : Agent}

theorem Counts.mem_of_ne {c c' : Census} (h : l.Counts t me c c') {id : Int} (hne : id ≠ me.id)
    (hid : id ∈ c'.configured) : id ∈ c.configured := by
  rcases (h.mem_iff id).mp hid with ⟨_, heq⟩ | hbefore
  · exact absurd heq hne
  · exact hbefore

/-- A configured agent waits or runs. -/
theorem Writes.waits_or_runs (hord : t.Ordered) (h : l.Writes now t me t')
    (hconf : l.configured.isSome = true) : me.state = .starting ∨ me.state = .running := by
  rcases Option.isSome_iff_exists.mp hconf with ⟨s, hs⟩
  rcases h.decides hord with ⟨own, live, _, _, hme, _⟩
  rw [hme, leased, decision, hs]
  dsimp only [decideStatic]
  split
  · exact Or.inl rfl
  · exact Or.inr rfl

/-- A configured agent that runs has no agent before it with its shard. -/
theorem Writes.free (hord : t.Ordered) (h : l.Writes now t me t')
    (hconf : l.configured.isSome = true) (hrun : me.state = .running) {x : Agent}
    (hx : t'.Holds x) (hrole : x.role = l.role) (hlt : x.id < me.id) :
    x.assignment ≠ me.assignment := by
  rcases Option.isSome_iff_exists.mp hconf with ⟨s, hs⟩
  rcases h.unblocked hord hs with ⟨hassigned, hunblocked⟩
  rw [hassigned]
  exact Agent.free_of_not_blocks (hunblocked hrun x hx hrole (Int.ne_of_lt hlt)) hlt

/-- A dynamic agent that runs has its shard for itself. -/
theorem Writes.alone (hord : t.Ordered) (h : l.Writes now t me t')
    (hconf : l.configured.isSome = false) (hproper : t'.Proper l.role)
    (hrun : me.state = .running) {b : Agent} (hb : t'.Runs l.role b) (hne : b.id ≠ me.id) :
    b.assignment ≠ me.assignment := by
  rcases h.apart hord (Option.isSome_eq_false_iff.mp hconf |> Option.isNone_iff_eq_none.mp)
    hproper hrun b hb hne with ⟨s, s', hs, hs', _, hindex⟩
  intro hsame
  rw [hs, hs'] at hsame
  exact hindex (congrArg Assignment.index (Option.some.inj hsame)).symm

end Link

namespace AgentTable

open Roster (Census)

/-- What is known of the agents of a role from a census. -/
structure Mixed (t : AgentTable) (role : String) (c : Census) : Prop where
  proper : t.Proper role
  known : ∀ id ∈ c.configured, id ≤ t.lastId
  /-- A configured agent that runs has made sure that no configured agent before it has
      its shard. -/
  earlier : ∀ a x, t.Runs role a → t.Holds x → x.role = role → a.id ∈ c.configured →
    x.id ∈ c.configured → x.id < a.id → x.assignment ≠ a.assignment
  /-- A configured agent that has never had to wait runs. -/
  settled : ∀ a, t.Holds a → a.role = role → a.id ∈ c.configured → a.id ∉ c.waited →
    a.state = .running
  shared : ∀ a b, t.Runs role a → t.Runs role b → a.id < b.id → a.assignment = b.assignment →
    a.id ∈ c.waited ∧ b.id ∉ c.configured

section Mixed

variable {t t' : AgentTable} {role : String} {c c' : Census}

theorem mixed_empty (role : String) : Mixed {} role {} where
  proper := fun _ hp => absurd hp List.not_mem_nil
  known := fun _ hid => absurd hid List.not_mem_nil
  earlier := fun _ _ ha => absurd ha.1 List.not_mem_nil
  settled := fun _ ha => absurd ha List.not_mem_nil
  shared := fun _ _ ha => absurd ha.1 List.not_mem_nil

/-- No agent of the role has changed up to the end of its lease, and none of them is new
    in the census. -/
theorem Mixed.carry (h : t.Mixed role c) (hproper : t'.Proper role)
    (hknown : ∀ id ∈ c'.configured, id ≤ t'.lastId)
    (hback : ∀ a, t'.Holds a → a.role = role → ∃ expiration, t.Holds { a with expiration })
    (hconf : ∀ a, t'.Holds a → a.role = role → a.id ∈ c'.configured → a.id ∈ c.configured)
    (hwaited : ∀ id ∈ c.waited, id ∈ c'.waited) : t'.Mixed role c' where
  proper := hproper
  known := hknown
  -- Each law is known of the record as it was, which may have had another expiration.
  earlier := by
    intro a x ha hx hrole hid hid' hlt
    rcases hback a ha.1 ha.2.1 with ⟨expiration, ha'⟩
    rcases hback x hx hrole with ⟨expiration', hx'⟩
    exact h.earlier { a with expiration } { x with expiration := expiration' } ⟨ha', ha.2⟩ hx' hrole
      (hconf a ha.1 ha.2.1 hid) (hconf x hx hrole hid') hlt
  settled := by
    intro a ha hrole hid hwait
    rcases hback a ha hrole with ⟨expiration, ha'⟩
    exact h.settled { a with expiration } ha' hrole (hconf a ha hrole hid)
      (fun hmem => hwait (hwaited _ hmem))
  shared := by
    intro a b ha hb hlt hsame
    rcases hback a ha.1 ha.2.1 with ⟨expiration, ha'⟩
    rcases hback b hb.1 hb.2.1 with ⟨expiration', hb'⟩
    have hbefore := h.shared { a with expiration } { b with expiration := expiration' }
      ⟨ha', ha.2⟩ ⟨hb', hb.2⟩ hlt hsame
    exact ⟨hwaited _ hbefore.1, fun hid => hbefore.2 (hconf b hb.1 hb.2.1 hid)⟩

variable {l : Link} {now : Int} {me : Agent}

/-- The agent of a pulse is in the census exactly if its link is configured. -/
theorem Mixed.configured_of_mem (h : t.Mixed role c) (hwrites : l.Writes now t me t')
    (hcounts : l.Counts t me c c') (hid : me.id ∈ c'.configured) : l.configured.isSome = true := by
  rcases (hcounts.mem_iff _).mp hid with ⟨hsome, _⟩ | hbefore
  · exact hsome
  · rcases hwrites.id_cases with ⟨own, _, _, heq, hself⟩ | hnew
    · exact (hcounts.own own.id hself).mp (heq ▸ hbefore)
    · have hknown := h.known _ hbefore
      simp only [Table.nextId] at hnew
      omega

/-- A configured agent that others have come after has pulsed before, with the shard that
    it has now. -/
theorem past_of_counts (hord : t.Ordered) (hwrites : l.Writes now t me t')
    (hcounts : l.Counts t me c c') (hconf : l.configured.isSome = true) {b : Agent}
    (hb : t.Holds b) (hlt : me.id < b.id) :
    ∃ own, t.Holds own ∧ own.role = l.role ∧ own.id = me.id ∧ own.id ∈ c.configured ∧
      own.assignment = me.assignment := by
  rcases hwrites.id_cases with ⟨own, hheld, hrole, heq, hself⟩ | hnew
  · rcases Option.isSome_iff_exists.mp hconf with ⟨s, hs⟩
    refine ⟨own, hheld, hrole, heq, (hcounts.own own.id hself).mpr hconf, ?_⟩
    rw [(hwrites.unblocked hord hs).1, ← hs]
    exact hcounts.keeps hconf own hheld hrole hself
  · have hknown := hord.le_lastId _ hb
    simp only [Table.nextId] at hnew hknown
    omega

/-- After a pulse, a configured agent that runs has no configured agent before it with its
    shard. -/
theorem Mixed.earlier_write (hord : t.Ordered) (h : t.Mixed l.role c)
    (hwrites : l.Writes now t me t') (hcounts : l.Counts t me c c') {a x : Agent}
    (ha : t'.Runs l.role a) (hx : t'.Holds x) (hrole : x.role = l.role) (hid : a.id ∈ c'.configured)
    (hid' : x.id ∈ c'.configured) (hlt : x.id < a.id) : x.assignment ≠ a.assignment := by
  rcases cases_of_writes hord hwrites ha.1 with rfl | ⟨hane, ha'⟩
  · exact hwrites.free hord (h.configured_of_mem hwrites hcounts hid) ha.2.2 hx hrole hlt
  · rcases cases_of_writes hord hwrites hx with rfl | ⟨hxne, hx'⟩
    · -- The shard that the later agent has made sure of is still the one it was.
      have hconf := h.configured_of_mem hwrites hcounts hid'
      rcases past_of_counts hord hwrites hcounts hconf ha' hlt with
        ⟨own, hheld, hownRole, heq, hcounted, hshard⟩
      rw [← hshard]
      exact h.earlier a own ⟨ha', ha.2⟩ hheld hownRole (hcounts.mem_of_ne hane hid) hcounted
        (heq ▸ hlt)
    · exact h.earlier a x ⟨ha', ha.2⟩ hx' hrole (hcounts.mem_of_ne hane hid)
        (hcounts.mem_of_ne hxne hid') hlt

/-- A configured agent that comes to run beside an agent that came later and runs with its
    shard: the later one is dynamic, and it has had to wait for it. -/
theorem Mixed.shared_beside (hord : t.Ordered) (h : t.Mixed l.role c)
    (hwrites : l.Writes now t me t') (hcounts : l.Counts t me c c')
    (hconf : l.configured.isSome = true) {b : Agent} (hb : t.Runs l.role b) (hlt : me.id < b.id)
    (hsame : me.assignment = b.assignment) : me.id ∈ c'.waited ∧ b.id ∉ c'.configured := by
  rcases past_of_counts hord hwrites hcounts hconf hb.1 hlt with
    ⟨own, hheld, hrole, heq, hcounted, hshard⟩
  have hshared : own.assignment = b.assignment := hshard.trans hsame
  refine ⟨?_, fun hid => h.earlier b own hb hheld hrole
    (hcounts.mem_of_ne (Int.ne_of_gt hlt) hid) hcounted (heq ▸ hlt) hshared⟩
  by_cases hwait : own.id ∈ c.waited
  · exact heq ▸ hcounts.waited _ hwait
  · -- Otherwise it was running already, and the two have shared the shard before.
    have hrun := h.settled own hheld hrole hcounted hwait
    exact absurd (h.shared own b ⟨hheld, hrole, hrun⟩ hb (heq ▸ hlt) hshared).1 hwait

/-- After a pulse, who can share a shard. -/
theorem Mixed.shared_write (hord : t.Ordered) (h : t.Mixed l.role c)
    (hwrites : l.Writes now t me t') (hcounts : l.Counts t me c c') (hproper : t'.Proper l.role)
    {a b : Agent} (ha : t'.Runs l.role a) (hb : t'.Runs l.role b) (hlt : a.id < b.id)
    (hsame : a.assignment = b.assignment) : a.id ∈ c'.waited ∧ b.id ∉ c'.configured := by
  rcases cases_of_writes hord hwrites ha.1 with rfl | ⟨hane, ha'⟩
  · rcases cases_of_writes hord hwrites hb.1 with rfl | ⟨hbne, hb'⟩
    · exact absurd hlt (Int.lt_irrefl _)
    · cases hconf : l.configured.isSome with
      | false => exact absurd hsame.symm (hwrites.alone hord hconf hproper ha.2.2 hb hbne)
      | true => exact h.shared_beside hord hwrites hcounts hconf ⟨hb', hb.2⟩ hlt hsame
  · rcases cases_of_writes hord hwrites hb.1 with rfl | ⟨hbne, hb'⟩
    · cases hconf : l.configured.isSome with
      | false => exact absurd hsame (hwrites.alone hord hconf hproper hb.2.2 ha hane)
      | true => exact absurd hsame (hwrites.free hord hconf hb.2.2 ha.1 ha.2.1 hlt)
    · have hbefore := h.shared a b ⟨ha', ha.2⟩ ⟨hb', hb.2⟩ hlt hsame
      exact ⟨hcounts.waited _ hbefore.1, fun hid => hbefore.2 (hcounts.mem_of_ne hbne hid)⟩

/-- A pulse of an agent of the role. -/
theorem Mixed.write (hord : t.Ordered) (h : t.Mixed l.role c) (hwrites : l.Writes now t me t')
    (hcounts : l.Counts t me c c') : t'.Mixed l.role c' := by
  have hproper := h.proper.write hord hwrites (fun _ => hwrites.sensible h.proper)
  refine ⟨hproper, fun id hid => ?_, fun a x => h.earlier_write hord hwrites hcounts,
    fun a ha hrole hid hwait => ?_, fun a b => h.shared_write hord hwrites hcounts hproper⟩
  · rcases (hcounts.mem_iff id).mp hid with ⟨_, rfl⟩ | hbefore
    · exact (hwrites.ordered hord).le_lastId _ (hwrites.holds hord)
    · exact Int.le_trans (h.known id hbefore) hwrites.lastId_le
  · rcases cases_of_writes hord hwrites ha with rfl | ⟨hane, ha'⟩
    · have hconf := h.configured_of_mem hwrites hcounts hid
      rcases hwrites.waits_or_runs hord hconf with hstart | hrun
      · exact absurd (hcounts.waits hconf hstart) hwait
      · exact hrun
    · exact h.settled a ha' hrole (hcounts.mem_of_ne hane hid)
        (fun hmem => hwait (hcounts.waited _ hmem))

end Mixed

end AgentTable

namespace Roster

/-- The census knows which links are configured, and what it says holds of the records of
    the role. -/
structure Mingled (role : String) (m : Roster) (c : Census) : Prop where
  separate : Separate m
  mixed : m.agents.Mixed role c
  own : ∀ name member id, m.find? name = some member → member.link.selfId = some id →
    (id ∈ c.configured ↔ member.link.configured.isSome = true)
  keeps : ∀ name member, m.find? name = some member → member.link.role = role →
    member.link.configured.isSome = true → ∀ a, m.agents.Holds a → a.role = role →
      member.link.selfId = some a.id → a.assignment = member.link.configured

theorem mingled_init (role : String) (wall : WallClock) : Mingled role { wall } {} where
  separate := separate_init wall
  mixed := AgentTable.mixed_empty role
  own := fun _ _ _ hfind => absurd hfind (by simp [find?])
  keeps := fun _ _ hfind => absurd hfind (by simp [find?])

namespace Mingled

variable {role : String} {m m' : Roster} {c : Census}

/-- Nobody has registered. -/
theorem carry (h : Mingled role m c) (hsep : Separate m') (hcarried : Carried role m m')
    (e : Event) : Mingled role m' (c.note e m') := by
  -- The link that is counted remembers an id that it remembered before.
  have hconf : ∀ id ∈ (c.note e m').configured, id ∈ c.configured := by
    intro id hid
    rcases Census.cases_note hid with hbefore | ⟨name, member', hfind', hself, hsome⟩
    · exact hbefore
    · rcases hcarried.members name member' id hfind' hself with ⟨member, hfind, hself', _, hsame⟩
      exact (h.own name member id hfind hself').mpr (hsame ▸ hsome)
  refine ⟨hsep, h.mixed.carry (hcarried.proper h.mixed.proper)
    (fun id hid => Int.le_trans (h.mixed.known id (hconf id hid)) hcarried.lastId_le) hcarried.back
    (fun a _ _ => hconf a.id) (fun _ => Census.note_waited),
    fun name member' id hfind' hself => ?_,
    fun name member' hfind' hrole hsome a ha harole hself => ?_⟩
  · rcases hcarried.members name member' id hfind' hself with ⟨member, hfind, hself', _, hsame⟩
    rw [← hsame, ← h.own name member id hfind hself']
    exact ⟨hconf id, Census.note_mono⟩
  · rcases hcarried.members name member' a.id hfind' hself with
      ⟨member, hfind, hself', hsameRole, hsame⟩
    rcases hcarried.back a ha harole with ⟨expiration, ha'⟩
    rw [← hsame] at hsome ⊢
    exact h.keeps name member hfind (hsameRole.trans hrole) hsome { a with expiration } ha' harole
      hself'

variable {name : String} {member : Member} {now : Int} {me : Agent}

/-- A pulse of another role came through. -/
theorem mixed_other (h : Mingled role m c) (hwrote : Wrote m name member now me m')
    (hrole : member.link.role ≠ role) (waited : Waited) :
    m'.agents.Mixed role (c.note (.pulse name waited) m') := by
  have hord := h.separate.ordered
  -- The record that was written is not one of the role.
  have hsub : ∀ p ∈ m'.agents.rows, p.2.role = role → p.1 ≠ me.id ∧ p ∈ m.agents.rows := by
    intro p hp hprole
    rcases (hwrote.writes.mem_rows hord).mp hp with rfl | ⟨hne, hbefore, _⟩
    · exact absurd ((hwrote.writes.role_eq hord).symm.trans hprole) hrole
    · exact ⟨hne, hbefore⟩
  refine h.mixed.carry (h.mixed.proper.of_subset (fun p hp hprole => (hsub p hp hprole).2))
    (fun id hid => ?_) (fun a ha harole => ⟨a.expiration, (hsub _ ha harole).2⟩)
    (fun a ha harole hid => ?_) (fun _ => Census.note_waited)
  · rcases (hwrote.mem_note waited).mp hid with ⟨_, rfl⟩ | hbefore
    · exact (hwrote.writes.ordered hord).le_lastId _ (hwrote.writes.holds hord)
    · exact Int.le_trans (h.mixed.known id hbefore) hwrote.writes.lastId_le
  · rcases (hwrote.mem_note waited).mp hid with ⟨_, heq⟩ | hbefore
    · exact absurd heq (hsub _ ha harole).1
    · exact hbefore

/-- A pulse of the role came through. -/
theorem mixed_own (h : Mingled member.link.role m c) (hwrote : Wrote m name member now me m')
    (waited : Waited) :
    m'.agents.Mixed member.link.role (c.note (.pulse name waited) m') := by
  refine h.mixed.write h.separate.ordered hwrote.writes ⟨?_, h.keeps name member hwrote.found rfl,
    fun _ => hwrote.mem_note waited, fun _ => Census.note_waited, hwrote.mem_waited waited⟩
  exact fun id hself => h.own name member id hwrote.found hself

/-- A pulse came through. -/
theorem write (h : Mingled role m c) (hsep : Separate m')
    (hwrote : Wrote m name member now me m') (waited : Waited) :
    Mingled role m' (c.note (.pulse name waited) m') := by
  have hord := h.separate.ordered
  have hmixed : m'.agents.Mixed role (c.note (.pulse name waited) m') := by
    by_cases hrole : member.link.role = role
    · subst hrole
      exact h.mixed_own hwrote waited
    · exact h.mixed_other hwrote hrole waited
  rcases hwrote.after with ⟨after, hafter, hself, hrole, hconf, _⟩
  -- Nobody else remembers the record that was written.
  have hne : ∀ {name' member' id}, m'.find? name' = some member' →
      member'.link.selfId = some id → name' ≠ name → id ≠ me.id := by
    intro name' member' id hfind' hself' hname heq
    exact hname (hsep.distinct hfind' hafter (heq ▸ hself') hself)
  refine ⟨hsep, hmixed, fun name' member' id hfind' hself' => ?_,
    fun name' member' hfind' hrole' hsome a ha harole hself' => ?_⟩
  · by_cases hname : name' = name
    · rw [hname, hafter, Option.some.injEq] at hfind'
      subst hfind'
      have hid : me.id = id := Option.some.inj (hself.symm.trans hself')
      rw [hwrote.mem_note waited, hconf, ← hid]
      refine ⟨fun hmem => ?_, fun hsome => Or.inl ⟨hsome, rfl⟩⟩
      rcases hmem with ⟨hsome, _⟩ | hbefore
      · exact hsome
      · rcases hwrote.writes.id_cases with ⟨own, _, _, heq, hown⟩ | hnew
        · exact (h.own name member own.id hwrote.found hown).mp (heq ▸ hbefore)
        · have hknown := h.mixed.known _ hbefore
          simp only [Table.nextId] at hnew
          omega
    · have hother := hne hfind' hself' hname
      rw [hwrote.others name' hname] at hfind'
      rw [← h.own name' member' id hfind' hself', hwrote.mem_note waited]
      exact ⟨fun hmem => hmem.resolve_left (fun heq => hother heq.2), Or.inr⟩
  · by_cases hname : name' = name
    · rw [hname, hafter, Option.some.injEq] at hfind'
      subst hfind'
      rcases Option.isSome_iff_exists.mp hsome with ⟨s, hs⟩
      have hid : me.id = a.id := Option.some.inj (hself.symm.trans hself')
      have hassigned := (hwrote.writes.unblocked hord (hconf.symm.trans hs)).1
      rw [hs, ← hassigned, ← AgentTable.Holds.eq_of_id_eq (hwrote.writes.ordered hord)
        (hwrote.writes.holds hord) ha hid]
    · rcases AgentTable.cases_of_writes hord hwrote.writes ha with rfl | ⟨_, hbefore⟩
      · exact absurd rfl (hne hfind' hself' hname)
      · rw [hwrote.others name' hname] at hfind'
        exact h.keeps name' member' hfind' hrole' hsome a hbefore harole hself'

end Mingled

/-- Every event whose insertions stay keeps the invariant. -/
theorem mingled_step {role : String} {m : Roster} {c : Census} {e : Event} (h : Mingled role m c)
    (hputs : e.PutsOther role) (hcommits : Commits m e) :
    Mingled role (m.step e).1 (c.note e (m.step e).1) := by
  have hsep := separate_step h.separate hcommits
  rcases wrote_or_carried h.separate.ordered hputs hcommits with
    ⟨name, waited, member, now, me, rfl, hwrote⟩ | hcarried
  · exact h.write hsep hwrote waited
  · exact h.carry hsep hcarried e

/-- What holds of a census holds of that of a run which goes on from there. -/
theorem mingled_run {role : String} {events : List Event} : ∀ {m : Roster} {c : Census},
    Mingled role m c → Along (fun m e => e.PutsOther role ∧ Commits m e) m events →
      Mingled role (m.run events) (m.census c events) := by
  induction events with
  | nil => exact fun h _ => h
  | cons e es ih => exact fun h hkept => ih (mingled_step h hkept.1.1 hkept.1.2) hkept.2

/-- Of two records of a role that run and have the same numbers, expired or not, the
    earlier one is that of a configured agent that has had to wait, and the later one is
    that of a dynamic agent. -/
theorem mixed_records_apart (role : String) (wall : WallClock) (events : List Event)
    (h : Along (fun m e => e.PutsOther role ∧ Commits m e) { wall } events) :
    (({ wall } : Roster).run events).agents.rows.Pairwise fun p q =>
      p.2.role = role → q.2.role = role → p.2.state = .running → q.2.state = .running →
        p.2.total = q.2.total → p.2.index = q.2.index →
          p.1 ∈ (({ wall } : Roster).census {} events).waited ∧
          q.1 ∉ (({ wall } : Roster).census {} events).configured := by
  have hinv := mingled_run (mingled_init role wall) h
  refine hinv.separate.ordered.ascending.imp_of_mem
    (fun {p q} hp hq hlt hprole hqrole hprun hqrun htotal hindex => ?_)
  rcases hinv.mixed.proper p hp hprole with ⟨a, rfl, _⟩
  rcases hinv.mixed.proper q hq hqrole with ⟨b, rfl, _⟩
  exact hinv.mixed.shared a b ⟨hp, hprole, hprun⟩ ⟨hq, hqrole, hqrun⟩ hlt
    (Agent.assignment_eq_of_row htotal hindex)

/-- A configured agent waits, because the only other agent has counted itself alone. Then
    a dynamic agent comes, the first one leaves, and with two agents left the dynamic one
    has the shard of the one that waits and may start. -/
def mingling : List Event :=
  [.join "d" "r" none 3000, .join "s" "r" (some ⟨2, 1, Assignment.second_lt⟩) 3000,
    .join "a" "r" none 3000, .pulse "d", .pulse "s", .pulse "a", .leave "d", .pulse "a",
    .pulse "a", .pulse "s"]

theorem mixed_records_apart_mingling :
    (({ wall := ⟨0⟩ } : Roster).census {} mingling).configured = [2, 2] ∧
    (({ wall := ⟨0⟩ } : Roster).run mingling).agents.rows.Pairwise fun p q =>
      p.2.role = "r" → q.2.role = "r" → p.2.state = .running → q.2.state = .running →
        p.2.total = q.2.total → p.2.index = q.2.index →
          p.1 ∈ (({ wall := ⟨0⟩ } : Roster).census {} mingling).waited ∧
          q.1 ∉ (({ wall := ⟨0⟩ } : Roster).census {} mingling).configured :=
  ⟨by decide +kernel, mixed_records_apart "r" ⟨0⟩ mingling (by decide +kernel)⟩

/-- The configured agent has registered earlier and does not look at the dynamic one that
    runs with its shard. -/
theorem mingling_shares_shard :
    Along Unfailing { wall := ⟨0⟩ } mingling ∧
    ["s", "a"].map (fun name => ((({ wall := ⟨0⟩ } : Roster).run mingling).find? name).map
        fun member => (member.link.configured.isSome, member.link.selfId)) =
      [some (true, some 2), some (false, some 3)] ∧
    (({ wall := ⟨0⟩ } : Roster).run mingling).wall.now = 0 ∧
    (({ wall := ⟨0⟩ } : Roster).run mingling).agents.rows.map
        (fun p => (p.1, p.2.expiration, p.2.state, p.2.total, p.2.index)) =
      [(2, 3000, .running, some 2, some 1), (3, 3000, .running, some 2, some 1)] := by
  decide +kernel

end Roster

end OutboxCluster
