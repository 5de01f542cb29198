import OutboxCluster.Proofs.Parted
import OutboxCluster.Proofs.Separate

/-!
# Shards of Configured Agents

Under static sharding the shards come from outside, and nothing keeps two agents
from being given the same one, or totals that do not fit together. An agent gives
way if a peer has another total, or if a peer that has registered earlier has its
shard. The rule is lopsided: of two agents with one shard only the later one waits,
and the earlier one does not even look. So it is not the decision of a single agent
that keeps two of them apart but the order in which they have registered.

`AgentTable.Entitled` is what an agent has made sure of when it runs: nobody before
it has its shard, and nobody runs with another total. The first part stays true by
itself, because records are only ever added behind the others and a configured shard
never changes, and the second one because whoever starts to run looks at all records
and not only at those that run. `Entitled.write` is that argument; it does not ask
whether the entitled agent still runs.

That a shard never changes is a matter of ownership. It fails as soon as a link
writes the record of another one, so the sessions that insert a record are asked to
commit.

## Main definitions

* `AgentTable.Entitled`: What an agent has made sure of when it runs.
* `AgentTable.Ranked`: All that run are entitled.
* `Link.Keeps`: The own record has the configured shard.
* `Roster.Event.KeepsStatic`: An event that brings no dynamic agent of a role.
* `Roster.Stationed`: The invariant.

## Theorems

* `Entitled.apart`: An entitled agent is apart from those that run.
* `Entitled.write`, `Ranked.write`, `Ranked.renew`: A pulse and a renewal.
* `stationed_step`: Every event keeps the invariant.
* `configured_records_apart`: Running records have equal totals and distinct indices.
-/

namespace OutboxCluster

namespace AgentTable

/-- Nobody who has registered before the agent has its shard, and all who run have
    its total. -/
structure Entitled (t : AgentTable) (role : String) (a : Agent) : Prop where
  earlier : ∀ x, t.Holds x → x.role = role → x.id < a.id → x.assignment ≠ a.assignment
  agreed : ∀ x, t.Runs role x → x.total = a.total

/-- Every agent of the role has a shard, and those that run are entitled to it. -/
structure Ranked (t : AgentTable) (role : String) : Prop where
  assigned : ∀ p ∈ t.rows, p.2.role = role →
    ∃ (a : Agent) (s : Assignment), p = (a.id, a.row) ∧ a.assignment = some s
  entitled : ∀ a, t.Runs role a → t.Entitled role a

section Ranked

variable {t t' : AgentTable} {role : String}

theorem ranked_empty (role : String) : Ranked {} role where
  assigned := fun _ hp => absurd hp List.not_mem_nil
  entitled := fun _ ha => absurd ha.1 List.not_mem_nil

theorem Ranked.shard (h : t.Ranked role) {a : Agent} (ha : t.Holds a) (hrole : a.role = role) :
    ∃ s, a.assignment = some s := by
  rcases h.assigned _ ha hrole with ⟨b, s, heq, hs⟩
  rw [Prod.mk.injEq] at heq
  exact ⟨s, by rw [Agent.row_injective heq.1 heq.2]; exact hs⟩

theorem Ranked.proper (h : t.Ranked role) : t.Proper role := by
  intro p hp hrole
  rcases h.assigned p hp hrole with ⟨a, s, heq, hs⟩
  exact ⟨a, heq, Or.inr ⟨s, hs⟩⟩

/-- Of two agents with one shard the later one is not entitled, if the earlier one is
    there, and does not run, if the earlier one is entitled. -/
theorem Entitled.apart (h : t.Ranked role) {a : Agent} (hent : t.Entitled role a)
    (ha : t.Holds a) (hrole : a.role = role) {x : Agent} (hx : t.Runs role x)
    (hne : x.id ≠ a.id) : a.Apart x := by
  rcases h.shard ha hrole with ⟨s, hs⟩
  rcases h.shard hx.1 hx.2.1 with ⟨s', hs'⟩
  have htotal := hent.agreed x hx
  rw [(Agent.assignment_eq_some_iff.mp hs).1, (Agent.assignment_eq_some_iff.mp hs').1,
    Option.some.injEq] at htotal
  refine Agent.apart_of_ne hs hs' htotal.symm (fun hsame => ?_)
  have hshard : x.assignment = a.assignment := by rw [hs, hs', hsame]
  rcases Int.lt_or_gt_of_ne hne with hlt | hgt
  · exact hent.earlier x hx.1 hx.2.1 hlt hshard
  · exact (h.entitled x hx).earlier a ha hrole hgt hshard.symm

theorem Ranked.parted (h : t.Ranked role) : t.Parted role where
  proper := h.proper
  apart := fun a _ ha hb hne =>
    (h.entitled a ha).apart h ha.1 ha.2.1 hb (Ne.symm hne)

/-- Every agent of the role was there before, up to the end of its lease. -/
theorem Entitled.carry {a : Agent} (h : t.Entitled role a)
    (hback : ∀ x, t'.Holds x → x.role = role → ∃ expiration, t.Holds { x with expiration }) :
    t'.Entitled role a := by
  refine ⟨fun x hx hrole hlt => ?_, fun x hx => ?_⟩
  · rcases hback x hx hrole with ⟨expiration, hx'⟩
    exact h.earlier { x with expiration } hx' hrole hlt
  · rcases hback x hx.1 hx.2.1 with ⟨expiration, hx'⟩
    exact h.agreed { x with expiration } ⟨hx', hx.2⟩

/-- Every agent of the role was there before, up to the end of its lease. -/
theorem Ranked.carry (h : t.Ranked role) (hproper : t'.Proper role)
    (hback : ∀ x, t'.Holds x → x.role = role → ∃ expiration, t.Holds { x with expiration }) :
    t'.Ranked role := by
  refine ⟨fun p hp hrole => ?_, fun a ha => ?_⟩
  · rcases hproper p hp hrole with ⟨a, rfl, _⟩
    rcases hback a hp hrole with ⟨expiration, ha⟩
    have hshard : ∃ s, a.assignment = some s := h.shard (a := { a with expiration }) ha hrole
    rcases hshard with ⟨s, hs⟩
    exact ⟨a, s, rfl, hs⟩
  · rcases hback a ha.1 ha.2.1 with ⟨expiration, ha'⟩
    have hent := (h.entitled { a with expiration } ⟨ha', ha.2⟩).carry hback
    exact ⟨hent.earlier, hent.agreed⟩

theorem Ranked.of_subset (h : t.Ranked role) (hsub : ∀ p ∈ t'.rows, p.2.role = role → p ∈ t.rows) :
    t'.Ranked role :=
  h.carry (h.proper.of_subset hsub) (fun x hx hrole => ⟨x.expiration, hsub _ hx hrole⟩)

theorem Ranked.renew (hord : t.Ordered) (h : t.Ranked role) {l : Link} {now : Int}
    (hrenews : l.Renews now t t') : t'.Ranked role :=
  h.carry (h.proper.renew hord hrenews) (fun _ hx _ => holds_of_renews hord hrenews hx)

end Ranked

end AgentTable

/-- A peer that does not block a configured shard has its total, and not the shard if
    it has registered earlier. -/
theorem Agent.of_not_blocks {peer : Agent} {s s' : Assignment} {id : Int}
    (hpeer : peer.assignment = some s') (h : peer.blocks s id = false) :
    s'.total = s.total ∧ (peer.id < id → peer.assignment ≠ some s) := by
  unfold blocks at h
  rw [(assignment_eq_some_iff.mp hpeer).1, Bool.or_eq_false_iff, Option.any_some,
    bne_eq_false_iff_eq, Bool.and_eq_false_iff] at h
  refine ⟨h.1, fun hlt => ?_⟩
  rcases h.2 with hge | hne
  · exact absurd hlt (of_decide_eq_false hge)
  · exact beq_eq_false_iff_ne.mp hne

namespace Link

/-- The record that the link takes for its own has the configured shard. -/
def Keeps (l : Link) (t : AgentTable) : Prop :=
  ∀ a, t.Holds a → l.selfId = some a.id → a.assignment = l.configured

section Static

variable {l : Link} {now : Int} {t t' : AgentTable} {me : Agent} {s : Assignment}

/-- The agent has pulsed under the id that it remembers, or under a new one. -/
theorem Writes.id_cases (h : l.Writes now t me t') :
    (∃ own, t.Holds own ∧ own.role = l.role ∧ own.id = me.id ∧ l.selfId = some own.id) ∨
      me.id = t.nextId := by
  rcases h with ⟨agents, own, live, t₁, hlist, henrols, hme, _, _⟩
  have hid : own.id = me.id := by
    rw [hme, (leased_fields _ _ _ _).1, (decision_fields _ _ _).1]
  cases henrols with
  | own hmem hself =>
      have hheld := (AgentTable.mem_list_iff hlist).mp (List.mem_filter.mp hmem).1
      exact Or.inl ⟨own, hheld.1, hheld.2, hid, hself⟩
  | new _ => exact Or.inr hid.symm

/-- A configured agent has its shard, and if it runs then nobody blocks that. -/
theorem Writes.unblocked (hord : t.Ordered) (h : l.Writes now t me t')
    (hconf : l.configured = some s) : me.assignment = some s ∧
      (me.state = .running → ∀ peer, t'.Holds peer → peer.role = l.role → peer.id ≠ me.id →
        peer.blocks s me.id = false) := by
  have hmem := fun p => h.mem_rows (p := p) hord
  rcases h.decides hord with ⟨own, live, t₁, hdec, hme, hid, _, _, _, hrows⟩
  have hdecision : l.decision own live =
      (decideStatic own s (live.filter (·.id ≠ own.id))).1 := by
    rw [decision, hconf]
  refine ⟨?_, fun hrun peer hpeer hrole hne => ?_⟩
  · rw [hme, hdecision]
    exact Agent.assignment_withAssignment own (some s)
  · -- What the table holds of others now, the decision has seen.
    have hseen : t₁.Holds peer := by
      rcases (hmem _).mp hpeer with heq | ⟨_, hbefore⟩
      · exact absurd (congrArg Prod.fst heq) hne
      · exact (hrows _ hne).mpr hbefore
    have hlisted : peer ∈ live.filter (·.id ≠ own.id) := by
      refine List.mem_filter.mpr ⟨?_, decide_eq_true (by rw [hid]; exact hne)⟩
      exact (AgentTable.mem_list_iff hdec.list_eq).mpr ⟨hseen, hrole⟩
    rw [hme, hdecision] at hrun
    -- A blocker that was found would have kept the agent from running.
    have hfree : (live.filter (·.id ≠ own.id)).find? (·.blocks s own.id) = none := by
      cases hfind : (live.filter (·.id ≠ own.id)).find? (·.blocks s own.id) with
      | none => rfl
      | some blocker =>
          simp only [leased, decideStatic, hfind, Option.isSome_some, if_true, reduceCtorEq] at hrun
    rw [← hid]
    exact Bool.eq_false_iff.mpr (List.find?_eq_none.mp hfree peer hlisted)

end Static

end Link

namespace AgentTable

variable {t t' : AgentTable} {role : String} {l : Link} {now : Int} {me : Agent}

/-- Who was entitled still is, after the pulse of another configured agent. -/
theorem Entitled.write (hord : t.Ordered) (h : t.Ranked role) (hwrites : l.Writes now t me t')
    {s : Assignment} (hrole : l.role = role) (hconf : l.configured = some s) (hkeeps : l.Keeps t)
    {a : Agent} (hent : t.Entitled role a) (ha : t.Holds a) (harole : a.role = role)
    (ha' : t'.Holds a) (hne : a.id ≠ me.id) : t'.Entitled role a := by
  rcases hwrites.unblocked hord hconf with ⟨hassigned, hunblocked⟩
  refine ⟨fun x hx hxrole hlt => ?_, fun x hx => ?_⟩
  · rcases cases_of_writes hord hwrites hx with rfl | ⟨_, hbefore⟩
    · rcases hwrites.id_cases with ⟨own, hown, hownRole, hid, hself⟩ | hnew
      · -- It has pulsed before, and its record had the same shard then.
        rw [hassigned, ← hconf, ← hkeeps own hown hself]
        exact hent.earlier own hown (hownRole.trans hrole) (by rw [hid]; exact hlt)
      · have hknown := hord.le_lastId _ ha
        simp only [Table.nextId] at hnew hknown
        omega
    · exact hent.earlier x hbefore hxrole hlt
  · rcases cases_of_writes hord hwrites hx.1 with rfl | ⟨_, hbefore⟩
    · rcases h.shard ha harole with ⟨s', hs'⟩
      have hfree := hunblocked hx.2.2 a ha' (harole.trans hrole.symm) hne
      rw [(Agent.assignment_eq_some_iff.mp hassigned).1, (Agent.assignment_eq_some_iff.mp hs').1,
        (Agent.of_not_blocks hs' hfree).1]
    · exact hent.agreed x ⟨hbefore, hx.2⟩

/-- Who was entitled still is, after a pulse of its own. -/
theorem Entitled.write_own (hord : t.Ordered) (hwrites : l.Writes now t me t')
    {s : Assignment} (hconf : l.configured = some s) {a : Agent} (hent : t.Entitled role a)
    (hassigned : a.assignment = some s) (hid : me.id = a.id) : t'.Entitled role me := by
  -- It has the shard that it had, and of the others there are no more than before.
  have hme := (hwrites.unblocked hord hconf).1
  refine ⟨fun x hx hxrole hlt => ?_, fun x hx => ?_⟩
  · rcases cases_of_writes hord hwrites hx with rfl | ⟨_, hbefore⟩
    · exact absurd rfl (Int.ne_of_lt hlt)
    · rw [hme, ← hassigned]
      exact hent.earlier x hbefore hxrole (hid ▸ hlt)
  · rcases cases_of_writes hord hwrites hx.1 with rfl | ⟨_, hbefore⟩
    · rfl
    · have htotal := hent.agreed x ⟨hbefore, hx.2⟩
      rw [htotal, (Agent.assignment_eq_some_iff.mp hassigned).1,
        (Agent.assignment_eq_some_iff.mp hme).1]

/-- A configured agent that runs has made sure that it is entitled. -/
theorem Ranked.entitle (hord : t.Ordered) (h : t.Ranked role) (hwrites : l.Writes now t me t')
    {s : Assignment} (hrole : l.role = role) (hconf : l.configured = some s)
    (hrun : me.state = .running) : t'.Entitled role me := by
  rcases hwrites.unblocked hord hconf with ⟨hassigned, hunblocked⟩
  -- What every other agent of the role is like, as it does not stand in the way.
  have hother : ∀ x, t'.Holds x → x.role = role → x.id ≠ me.id →
      x.total = me.total ∧ (x.id < me.id → x.assignment ≠ me.assignment) := by
    intro x hx hxrole hne
    rcases cases_of_writes hord hwrites hx with rfl | ⟨_, hbefore⟩
    · exact absurd rfl hne
    · rcases h.shard hbefore hxrole with ⟨s', hs'⟩
      rcases Agent.of_not_blocks hs' (hunblocked hrun x hx (hxrole.trans hrole.symm) hne) with
        ⟨htotal, hearlier⟩
      rw [hassigned, (Agent.assignment_eq_some_iff.mp hs').1,
        (Agent.assignment_eq_some_iff.mp hassigned).1, htotal]
      exact ⟨rfl, hearlier⟩
  refine ⟨fun x hx hxrole hlt => (hother x hx hxrole (Int.ne_of_lt hlt)).2 hlt, fun x hx => ?_⟩
  by_cases hid : x.id = me.id
  · rw [AgentTable.Holds.eq_of_id_eq (hwrites.ordered hord) hx.1 (hwrites.holds hord) hid]
  · exact (hother x hx.1 hx.2.1 hid).1

/-- A pulse of a configured agent, or of one of another role. -/
theorem Ranked.write (hord : t.Ordered) (h : t.Ranked role) (hwrites : l.Writes now t me t')
    (hconf : l.role = role → ∃ s, l.configured = some s) (hkeeps : l.role = role → l.Keeps t) :
    t'.Ranked role := by
  by_cases hrole : l.role = role
  · rcases hconf hrole with ⟨s, hs⟩
    refine ⟨fun p hp hprole => ?_, fun a ha => ?_⟩
    · rcases (hwrites.mem_rows hord).mp hp with rfl | ⟨_, hbefore, _⟩
      · exact ⟨me, s, rfl, (hwrites.unblocked hord hs).1⟩
      · exact h.assigned p hbefore hprole
    · rcases cases_of_writes hord hwrites ha.1 with rfl | ⟨hne, hbefore⟩
      · exact h.entitle hord hwrites hrole hs ha.2.2
      · exact (h.entitled a ⟨hbefore, ha.2⟩).write hord h hwrites hrole hs (hkeeps hrole) hbefore
          ha.2.1 ha.1 hne
  · refine h.of_subset (fun p hp hprole => ?_)
    rcases (hwrites.mem_rows hord).mp hp with rfl | ⟨_, hbefore, _⟩
    · exact absurd ((hwrites.role_eq hord).symm.trans hprole) hrole
    · exact hbefore

end AgentTable

namespace Roster

/-- An event that neither brings a dynamic agent of the role nor puts in a record of
    it from outside. -/
def Event.KeepsStatic (role : String) : Event → Prop
  | .join _ role' configured _ => role' = role → configured.isSome = true
  | .put row => row.role ≠ role
  | _ => True

instance (role : String) : ∀ e : Event, Decidable (e.KeepsStatic role)
  | .join _ role' configured _ =>
    inferInstanceAs (Decidable (role' = role → configured.isSome = true))
  | .put row => inferInstanceAs (Decidable (row.role ≠ role))
  | .pulse .. | .renew .. | .leave _ | .crash _ | .arm .. | .close _ | .advance .. | .setClock _
  | .delete _ => .isTrue trivial

/-- All links of the role are configured and their records keep their shards, and who
    runs is entitled to it. -/
structure Stationed (role : String) (m : Roster) : Prop where
  separate : Separate m
  ranked : m.agents.Ranked role
  configured : ∀ name member, m.find? name = some member → member.link.role = role →
    ∃ s, member.link.configured = some s
  keeps : ∀ name member, m.find? name = some member → member.link.role = role →
    member.link.Keeps m.agents

theorem stationed_init (role : String) (wall : WallClock) : Stationed role { wall } where
  separate := separate_init wall
  ranked := AgentTable.ranked_empty role
  configured := fun _ _ hfind => absurd hfind (by simp [find?])
  keeps := fun _ _ hfind => absurd hfind (by simp [find?])

/-- A link that remembers what it did, or nothing, keeps its record if that was in the
    table before, up to the end of its lease. -/
theorem Stationed.keeps_of {role : String} {m : Roster} (h : Stationed role m) {name : String}
    {member : Member} (hfind : m.find? name = some member) {l : Link} (hrole : l.role = role)
    {t' : AgentTable} (hsame : l.role = member.link.role ∧ l.configured = member.link.configured)
    (hself : l.selfId = none ∨ l.selfId = member.link.selfId)
    (hback : ∀ a, t'.Holds a → member.link.selfId = some a.id →
      ∃ expiration, m.agents.Holds { a with expiration }) : l.Keeps t' := by
  intro a ha hid
  rcases hself with hnone | heq
  · exact nomatch hnone.symm.trans hid
  · rcases hback a ha (heq.symm.trans hid) with ⟨expiration, hbefore⟩
    rw [hsame.2]
    exact h.keeps name member hfind (hsame.1.symm.trans hrole) { a with expiration } hbefore
      (heq.symm.trans hid)

/-- What an event leaves of the configured records is ranked. -/
theorem Stationed.ranked_step {role : String} {m : Roster} {e : Event} (h : Stationed role m)
    (hkeeps : e.KeepsStatic role) : (m.step e).1.agents.Ranked role := by
  have hord := h.separate.ordered
  rcases (outcome_step m e).agents_cases with heq | ⟨name, member, now, me, hfind, hwrites⟩ |
    ⟨name, member, now, hfind, hrenews⟩ | ⟨gone, heq⟩ | ⟨row, rfl, heq⟩
  · exact heq ▸ h.ranked
  · exact h.ranked.write hord hwrites (h.configured name member hfind) (h.keeps name member hfind)
  · exact h.ranked.renew hord hrenews
  · refine h.ranked.of_subset (fun p hp _ => ?_)
    rw [heq] at hp
    exact (Table.mem_delete.mp hp).1
  · refine h.ranked.of_subset (fun p hp hrole => ?_)
    rw [heq] at hp
    rcases Table.mem_insert.mp hp with hp | rfl
    · exact hp
    · exact absurd hrole hkeeps

/-- After an event that keeps the links separate every link of the role has kept its
    record. -/
theorem Stationed.keeps_step {role : String} {m m' : Roster} {e : Event} {ids : List Int}
    (h : Stationed role m) (hout : Outcome m e m' ids) (hsep : Separate m')
    (hcommits : ∀ id ∈ ids, id ∈ m'.agents.ids) {name : String} {member' : Member}
    (hfind' : m'.find? name = some member') (hrole : member'.link.role = role) :
    member'.link.Keeps m'.agents := by
  have hord := h.separate.ordered
  -- A link that has not acted keeps its record as long as the table has lost rows only.
  have hpass : ∀ {t' : AgentTable}, (∀ p ∈ t'.rows, p ∈ m.agents.rows) → ∀ {name member},
      m.find? name = some member → member.link.role = role → member.link.Keeps t' :=
    fun hsub _ _ hfind hrole => h.keeps_of hfind hrole ⟨rfl, rfl⟩ (Or.inr rfl)
      (fun a ha _ => ⟨a.expiration, hsub _ ha⟩)
  have hrefl : ∀ p ∈ m.agents.rows, p ∈ m.agents.rows := fun _ hp => hp
  cases hout with
  | absent => exact hpass hrefl hfind' hrole
  | join =>
      rcases cases_setMember hfind' with ⟨rfl, rfl⟩ | ⟨_, hfind⟩
      · exact fun a _ hself => nomatch hself
      · exact hpass hrefl hfind hrole
  | @wrote actor waited member _ me _ _ t' hactor hwrites _ =>
      rcases cases_setMember hfind' with ⟨rfl, rfl⟩ | ⟨hne, hfind⟩
      · -- It has just written its shard.
        intro a ha hself
        rcases h.configured _ _ hactor hrole with ⟨s, hs⟩
        have hid : me.id = a.id := Option.some.inj hself
        rw [← AgentTable.Holds.eq_of_id_eq (hwrites.ordered hord) (hwrites.holds hord) ha hid]
        exact (hwrites.unblocked hord hs).1.trans hs.symm
      · refine h.keeps_of hfind hrole ⟨rfl, rfl⟩ (Or.inr rfl) (fun a ha hself => ?_)
        rcases AgentTable.cases_of_writes hord hwrites ha with rfl | ⟨_, hbefore⟩
        · -- Both links would remember the record that was written.
          exact absurd (hsep.distinct hfind' find?_setMember_self hself rfl) hne
        · exact ⟨a.expiration, hbefore⟩
  | stopped hactor hremembers =>
      rcases cases_setMember hfind' with ⟨rfl, rfl⟩ | ⟨_, hfind⟩
      · refine h.keeps_of hactor hrole ⟨rfl, rfl⟩ ?_ (fun a ha _ => ⟨a.expiration, ha⟩)
        -- A record that was inserted would be there.
        cases hremembers with
        | kept => exact Or.inr rfl
        | taken =>
            exact absurd (hcommits _ (List.mem_singleton_self _)) hord.nextId_not_mem
        | forgotten _ => exact Or.inl rfl
      · exact hpass hrefl hfind hrole
  | renewed hactor hrenews =>
      have hback := fun {a} => AgentTable.holds_of_renews (a := a) hord hrenews
      rcases cases_setMember hfind' with ⟨rfl, rfl⟩ | ⟨_, hfind⟩
      · exact h.keeps_of hactor hrole ⟨rfl, rfl⟩ (Or.inr rfl) (fun _ ha _ => hback ha)
      · exact h.keeps_of hfind hrole ⟨rfl, rfl⟩ (Or.inr rfl) (fun _ ha _ => hback ha)
  | refused hactor hlink =>
      rcases cases_setMember hfind' with ⟨rfl, rfl⟩ | ⟨_, hfind⟩
      · refine h.keeps_of hactor hrole ?_ ?_ (fun a ha _ => ⟨a.expiration, ha⟩)
        · rcases hlink with rfl | rfl <;> exact ⟨rfl, rfl⟩
        · rcases hlink with rfl | rfl <;> exact Or.inr rfl
      · exact hpass hrefl hfind hrole
  | left hactor hself htable =>
      rcases cases_setMember hfind' with ⟨rfl, rfl⟩ | ⟨_, hfind⟩
      · exact fun a _ hself => nomatch hself
      · refine hpass (fun p hp => ?_) hfind hrole
        rcases htable with rfl | rfl
        · exact (Table.mem_delete.mp hp).1
        · exact hp
  | kept _ hactor =>
      rcases cases_setMember hfind' with ⟨rfl, rfl⟩ | ⟨_, hfind⟩
      · exact h.keeps_of hactor hrole ⟨rfl, rfl⟩ (Or.inr rfl) (fun a ha _ => ⟨a.expiration, ha⟩)
      · exact hpass hrefl hfind hrole
  | crash =>
      rw [find?_crash] at hfind'
      split at hfind'
      · cases hfind'
      · exact hpass hrefl hfind' hrole
  | advance | setClock => exact hpass hrefl hfind' hrole
  | put row =>
      refine h.keeps_of hfind' hrole ⟨rfl, rfl⟩ (Or.inr rfl) (fun a ha hself => ?_)
      rcases Table.mem_insert.mp ha with hbefore | hnew
      · exact ⟨a.expiration, hbefore⟩
      · -- Nobody remembers an id that was not given yet.
        have hknown := h.separate.known hfind' hself
        have hid := congrArg Prod.fst hnew
        simp only [Table.nextId] at hid
        omega
  | delete gone => exact hpass (fun p hp => (Table.mem_delete.mp hp).1) hfind' hrole

/-- Every event whose insertions stay keeps the invariant. -/
theorem stationed_step {role : String} {m : Roster} {e : Event} (h : Stationed role m)
    (hkeeps : e.KeepsStatic role) (hcommits : Commits m e) : Stationed role (m.step e).1 := by
  have hout := outcome_step m e
  have hsep := separate_step h.separate hcommits
  refine ⟨hsep, h.ranked_step hkeeps, fun name member hfind hrole => ?_,
    fun _ _ hfind hrole => h.keeps_step hout hsep hcommits hfind hrole⟩
  -- Only a link that joins can bring a shard from outside.
  rcases hout.member_cases hfind with ⟨member', hfind', hrole', hconf, _⟩ |
    ⟨role', configured, expiration, rfl, hlink⟩
  · rw [hconf]
    exact h.configured name member' hfind' (hrole'.symm.trans hrole)
  · rw [hlink] at hrole ⊢
    exact Option.isSome_iff_exists.mp (hkeeps hrole)

/-- Whatever configured links of a role have done, any two of its records that run,
    expired or not, have the same total and different indices. -/
theorem configured_records_apart (role : String) (wall : WallClock) (events : List Event)
    (h : Along (fun m e => e.KeepsStatic role ∧ Commits m e) { wall } events) :
    (({ wall } : Roster).run events).agents.rows.Pairwise fun p q =>
      p.2.role = role → q.2.role = role → p.2.state = .running → q.2.state = .running →
        ∃ total i j : Int, p.2.total = some total ∧ q.2.total = some total ∧
          p.2.index = some i ∧ q.2.index = some j ∧ i ≠ j := by
  have hinv : Stationed role (({ wall } : Roster).run events) :=
    h.invariant (stationed_init role wall) (fun m e hm he => stationed_step hm he.1 he.2)
  exact hinv.ranked.parted.rows_apart hinv.separate.ordered

/-- Two agents have one shard, a third one has another of the same total and a fourth
    one another total. The second one takes its shard over when the lease of the first
    one is over, and the first one waits when it registers again; a session has failed
    meanwhile and the clock has gone back. -/
def stationing : List Event :=
  let shard : Assignment := ⟨2, 0, by decide⟩
  [.join "a" "r" (some shard) 1000, .pulse "a", .join "b" "r" (some shard) 9000, .pulse "b",
    .join "c" "r" (some ⟨2, 1, by decide⟩) 9000, .pulse "c", .join "d" "r" (some ⟨3, 0, by decide⟩)
    9000, .pulse "d", .arm "b" .commit 1 .database, .pulse "b", .leave "d", .pulse "c",
    .advance 2000 2000, .pulse "b", .setClock (-5), .pulse "a", .renew "b", .pulse "b", .pulse "c"]

theorem configured_records_apart_stationing :
    (({ wall := ⟨0⟩ } : Roster).run stationing).agents.rows.map (fun p => (p.1, p.2.state)) =
      [(2, .running), (3, .running), (5, .starting)] ∧
    (({ wall := ⟨0⟩ } : Roster).run stationing).agents.rows.Pairwise fun p q =>
      p.2.role = "r" → q.2.role = "r" → p.2.state = .running → q.2.state = .running →
        ∃ total i j : Int, p.2.total = some total ∧ q.2.total = some total ∧
          p.2.index = some i ∧ q.2.index = some j ∧ i ≠ j :=
  ⟨by decide +kernel, configured_records_apart "r" ⟨0⟩ stationing (by decide +kernel)⟩

end Roster

end OutboxCluster
