import OutboxCluster.Proofs.Run

/-!
# Shards of Running Records

Under dynamic sharding no two records of a role that say their agent runs ever
claim the same shard, nor shards of different totals. This is a law of the table
alone: it asks nothing of the clocks and of leases, so it holds of records whose
lease is long over, and of those whose agent has crashed.

A decision looks at live records only, and that is where the law could fail: an
agent might start to run beside an expired record that still says it runs. It
cannot, because a pulse removes what it takes for expired in the session in which
it decides, so the records that the decision has seen are all the records there
are (`Writes.running`). Everything else that can happen to the table either takes
records away or moves the end of a lease, and neither brings a new claim
(`Exclusive.carry`).

Links of other roles may do as they like, and so may those who put in records of
other roles.

## Main definitions

* `AgentTable.Runs`: The table says that an agent of a role runs.
* `AgentTable.Exclusive`: Those that run have shards that fit together.
* `Roster.Event.KeepsDynamic`: An event that brings no static agent of a role.
* `Roster.Divided`: The invariant.

## Theorems

* `Exclusive.carry`: A table with no new claims.
* `Exclusive.write`, `Exclusive.renew`: A pulse and a renewal that came through.
* `divided_step`: Every event keeps the invariant.
* `running_records_apart`: Running records have equal totals and distinct indices.
-/

namespace OutboxCluster

/-- A running peer that leaves a shard to the agent has its total and not the
    shard. -/
theorem Agent.leaves_running {peer : Agent} {s : Assignment} (hrun : peer.state = .running)
    (hleaves : peer.leaves (some s) = true) :
    peer.total = some s.total ∧ peer.assignment ≠ some s := by
  unfold leaves at hleaves
  rw [hrun] at hleaves
  dsimp only at hleaves
  rw [Bool.and_eq_true, beq_iff_eq, bne_iff_ne, Option.map_some] at hleaves
  exact hleaves

namespace AgentTable

/-- The table says that an agent of the role runs. -/
def Runs (t : AgentTable) (role : String) (a : Agent) : Prop :=
  t.Holds a ∧ a.role = role ∧ a.state = .running

/-- Agents of the role that run can be read, have a shard, and claim different
    shards of one total. -/
structure Exclusive (t : AgentTable) (role : String) : Prop where
  legible : ∀ p ∈ t.rows, p.2.role = role → p.2.state = .running → ∃ a : Agent, p = (a.id, a.row)
  assigned : ∀ a, t.Runs role a → ∃ s, a.assignment = some s
  apart : ∀ a b, t.Runs role a → t.Runs role b → a.id ≠ b.id →
    a.total = b.total ∧ a.assignment ≠ b.assignment

theorem exclusive_empty (role : String) : Exclusive {} role where
  legible := fun _ hp => absurd hp List.not_mem_nil
  assigned := fun _ ha => absurd ha.1 List.not_mem_nil
  apart := fun _ _ ha => absurd ha.1 List.not_mem_nil

namespace Exclusive

variable {t t' : AgentTable} {role : String}

/-- No agent runs that did not run before, up to the end of its lease. -/
theorem carry (h : t.Exclusive role)
    (hback : ∀ p ∈ t'.rows, p.2.role = role → p.2.state = .running →
      ∃ (a : Agent) (expiration : Int), p = (a.id, a.row) ∧ t.Runs role { a with expiration }) :
    t'.Exclusive role := by
  -- A row that can be read determines its agent, so the one it came from is this one.
  have hruns : ∀ a, t'.Runs role a → ∃ expiration, t.Runs role { a with expiration } := by
    intro a ha
    rcases hback _ ha.1 ha.2.1 ha.2.2 with ⟨b, expiration, heq, hb⟩
    rw [Prod.mk.injEq] at heq
    rw [Agent.row_injective heq.1 heq.2]
    exact ⟨expiration, hb⟩
  refine ⟨fun p hp hrole hrun => ?_, fun a ha => ?_, fun a b ha hb hne => ?_⟩
  · rcases hback p hp hrole hrun with ⟨a, _, heq, _⟩
    exact ⟨a, heq⟩
  · rcases hruns a ha with ⟨expiration, hbefore⟩
    exact h.assigned { a with expiration } hbefore
  · rcases hruns a ha with ⟨expiration, ha'⟩
    rcases hruns b hb with ⟨expiration', hb'⟩
    exact h.apart { a with expiration } { b with expiration := expiration' } ha' hb' hne

/-- Rows that were there before bring no new claim. -/
theorem of_subset (h : t.Exclusive role)
    (hsub : ∀ p ∈ t'.rows, p.2.role = role → p ∈ t.rows) : t'.Exclusive role := by
  refine h.carry (fun p hp hrole hrun => ?_)
  have hbefore := hsub p hp hrole
  rcases h.legible p hbefore hrole hrun with ⟨a, rfl⟩
  exact ⟨a, a.expiration, rfl, hbefore, hrole, hrun⟩

/-- A renewal moves the end of a lease. -/
theorem renew (hord : t.Ordered) (h : t.Exclusive role) {l : Link} {now : Int}
    (hrenews : l.Renews now t t') : t'.Exclusive role := by
  rcases hrenews.mem_rows hord with ⟨me, _, hheld, hrows⟩
  refine h.carry (fun p hp hrole hrun => ?_)
  rcases (hrows p).mp hp with rfl | ⟨hbefore, _⟩
  · exact ⟨{ me with expiration := l.leaseEnd now }, me.expiration, rfl, hheld, hrole, hrun⟩
  · rcases h.legible p hbefore hrole hrun with ⟨a, rfl⟩
    exact ⟨a, a.expiration, rfl, hbefore, hrole, hrun⟩

/-- A pulse writes one record, whose agent has made sure of its shard if it
    runs. -/
theorem write (hord : t.Ordered) (h : t.Exclusive role) {l : Link} {now : Int} {me : Agent}
    (hwrites : l.Writes now t me t') (hconf : l.role = role → l.configured = none)
    (hlen : t'.rows.length < 4294967296) : t'.Exclusive role := by
  have hmem := fun p => hwrites.mem_rows hord (p := p)
  by_cases hrole : l.role = role
  · -- Agents that run now: this one, or one that ran before.
    have hruns : ∀ a, t'.Runs role a → a = me ∨ (t.Runs role a ∧ a.id ≠ me.id) := by
      intro a ha
      rcases (hmem _).mp ha.1 with heq | ⟨hne, hbefore, _⟩
      · rw [Prod.mk.injEq] at heq
        exact Or.inl (Agent.row_injective heq.1 heq.2)
      · exact Or.inr ⟨⟨hbefore, ha.2⟩, hne⟩
    -- What this one has made sure of, against each of the others.
    have hme : t'.Runs role me → ∃ s, me.assignment = some s ∧
        ∀ b, t'.Runs role b → b.id ≠ me.id → b.total = me.total ∧ b.assignment ≠ me.assignment := by
      intro hme
      rcases hwrites.running hord (hconf hrole) hlen hme.2.2 with ⟨s, hs, hleaves⟩
      refine ⟨s, hs, fun b hb hne => ?_⟩
      rw [hs, (Agent.assignment_eq_some_iff.mp hs).1]
      exact Agent.leaves_running hb.2.2 (hleaves b hb.1 (hb.2.1.trans hrole.symm) hne)
    -- Two that ran before are apart already; otherwise one of the two is this one.
    refine ⟨fun p hp hprole hrun => ?_, fun a ha => ?_, fun a b ha hb hne => ?_⟩
    · rcases (hmem p).mp hp with rfl | ⟨_, hbefore, _⟩
      · exact ⟨me, rfl⟩
      · exact h.legible p hbefore hprole hrun
    · rcases hruns a ha with rfl | ⟨hbefore, _⟩
      · rcases hme ha with ⟨s, hs, _⟩
        exact ⟨s, hs⟩
      · exact h.assigned a hbefore
    · rcases hruns a ha with rfl | ⟨ha', hane⟩
      · rcases hme ha with ⟨_, _, hothers⟩
        rcases hothers b hb (Ne.symm hne) with ⟨htotal, hshard⟩
        exact ⟨htotal.symm, Ne.symm hshard⟩
      · rcases hruns b hb with rfl | ⟨hb', _⟩
        · rcases hme hb with ⟨_, _, hothers⟩
          exact hothers a ha hane
        · exact h.apart a b ha' hb' hne
  · -- A link of another role writes no record of this one.
    refine h.of_subset (fun p hp hprole => ?_)
    rcases (hmem p).mp hp with rfl | ⟨_, hbefore, _⟩
    · exact absurd ((hwrites.role_eq hord).symm.trans hprole) hrole
    · exact hbefore

end Exclusive

end AgentTable

namespace Roster

/-- An event that neither brings a static agent of the role nor puts in a record of
    it from outside. -/
def Event.KeepsDynamic (role : String) : Event → Prop
  | .join _ role' configured _ => role' = role → configured = none
  | .put row => row.role ≠ role
  | _ => True

instance (role : String) (e : Event) : Decidable (e.KeepsDynamic role) := by
  unfold Event.KeepsDynamic
  split <;> infer_instance

/-- The shards of the role are divided among the agents that run, and all links of
    the role are dynamic. -/
structure Divided (role : String) (m : Roster) : Prop where
  ordered : m.agents.Ordered
  exclusive : m.agents.Exclusive role
  dynamic : ∀ name member, m.find? name = some member → member.link.role = role →
    member.link.configured = none

theorem divided_init (role : String) (wall : WallClock) : Divided role { wall } where
  ordered := Table.ordered_empty
  exclusive := AgentTable.exclusive_empty role
  dynamic := fun _ _ hfind => absurd hfind (by simp [find?])

/-- Every event keeps the invariant, if the table does not grow too large. -/
theorem divided_step {role : String} {m : Roster} {e : Event} (h : Divided role m)
    (hkeeps : e.KeepsDynamic role) (hlen : (m.step e).1.agents.rows.length < 4294967296) :
    Divided role (m.step e).1 := by
  have hout := outcome_step m e
  -- Only a link that joins can bring a shard from outside.
  have hdynamic : ∀ name member, (m.step e).1.find? name = some member →
      member.link.role = role → member.link.configured = none := by
    intro name member hfind hrole
    rcases hout.member_cases hfind with ⟨member', hfind', hrole', hconf, _⟩ |
      ⟨role', configured, expiration, rfl, hlink⟩
    · rw [hconf]
      exact h.dynamic name member' hfind' (hrole'.symm.trans hrole)
    · rw [hlink] at hrole ⊢
      exact hkeeps hrole
  generalize m.step e = after at hout hlen hdynamic ⊢
  rcases after with ⟨m', notices⟩
  rcases hout.agents_cases with heq | ⟨name, member, now, me, hfind, hwrites⟩ |
    ⟨name, member, now, hfind, hrenews⟩ | ⟨gone, heq⟩ | ⟨row, rfl, heq⟩
  · exact ⟨heq ▸ h.ordered, heq ▸ h.exclusive, hdynamic⟩
  · exact ⟨hwrites.ordered h.ordered,
      h.exclusive.write h.ordered hwrites (h.dynamic name member hfind) hlen, hdynamic⟩
  · exact ⟨hrenews.ordered h.ordered, h.exclusive.renew h.ordered hrenews, hdynamic⟩
  · refine ⟨heq ▸ h.ordered.delete gone, h.exclusive.of_subset (fun p hp _ => ?_), hdynamic⟩
    rw [heq] at hp
    exact (Table.mem_delete.mp hp).1
  · refine ⟨heq ▸ h.ordered.insert row, h.exclusive.of_subset (fun p hp hrole => ?_), hdynamic⟩
    rw [heq] at hp
    rcases Table.mem_insert.mp hp with hp | rfl
    · exact hp
    · exact absurd hrole hkeeps

/-- Whatever dynamic links of a role have done, any two of its records that run,
    expired or not, have the same total and different indices. -/
theorem running_records_apart (role : String) (wall : WallClock) (events : List Event)
    (h : Along (fun m e => e.KeepsDynamic role ∧
      (m.step e).1.agents.rows.length < 4294967296) { wall } events) :
    (({ wall } : Roster).run events).agents.rows.Pairwise fun p q =>
      p.2.role = role → q.2.role = role → p.2.state = .running → q.2.state = .running →
        ∃ total i j : Int, p.2.total = some total ∧ q.2.total = some total ∧
          p.2.index = some i ∧ q.2.index = some j ∧ i ≠ j := by
  have hinv : Divided role (({ wall } : Roster).run events) :=
    h.invariant (divided_init role wall) (fun m e hm he => divided_step hm he.1 he.2)
  -- Rows are in ascending order of their ids, so any two of them have distinct ids.
  refine hinv.ordered.ascending.imp_of_mem (fun {p q} hp hq hlt hprole hqrole hprun hqrun => ?_)
  rcases hinv.exclusive.legible p hp hprole hprun with ⟨a, rfl⟩
  rcases hinv.exclusive.legible q hq hqrole hqrun with ⟨b, rfl⟩
  have ha : AgentTable.Runs _ role a := ⟨hp, hprole, hprun⟩
  have hb : AgentTable.Runs _ role b := ⟨hq, hqrole, hqrun⟩
  rcases hinv.exclusive.assigned a ha with ⟨s, hs⟩
  rcases hinv.exclusive.assigned b hb with ⟨s', hs'⟩
  rcases hinv.exclusive.apart a b ha hb (Int.ne_of_lt hlt) with ⟨htotal, hshard⟩
  rcases Agent.assignment_eq_some_iff.mp hs with ⟨hat, hai⟩
  rcases Agent.assignment_eq_some_iff.mp hs' with ⟨hbt, hbi⟩
  refine ⟨s.total.toNat, s.index.toNat, s'.index.toNat, ?_, ?_, ?_, ?_, fun hindex => hshard ?_⟩
  · simp only [Agent.row, hat, Option.map_some]
  · simp only [Agent.row, ← htotal, hat, Option.map_some]
  · simp only [Agent.row, hai, Option.map_some]
  · simp only [Agent.row, hbi, Option.map_some]
  · -- Equal totals and equal indices would make the shards equal.
    have hsame : s = s' := by
      rw [hat, hbt, Option.some.injEq] at htotal
      have hidx : s.index = s'.index := UInt32.toNat_inj.mp (Int.ofNat_inj.mp hindex)
      rcases s with ⟨_, _, _⟩
      rcases s' with ⟨_, _, _⟩
      subst htotal hidx
      rfl
    rw [hs, hs', hsame]

/-- Two agents share the shards, though a session has failed and the clock has gone
    back. -/
def sharing : List Event :=
  [.join "a" "r" none 1000, .pulse "a", .pulse "a", .join "b" "r" none 1000,
    .arm "b" .commit 1 .database, .pulse "b", .pulse "b", .setClock (-5), .pulse "a", .pulse "b",
    .pulse "a"]

theorem running_records_apart_sharing :
    (({ wall := ⟨0⟩ } : Roster).run sharing).agents.rows.map (fun p => (p.1, p.2.state)) =
      [(1, .running), (2, .running)] ∧
    (({ wall := ⟨0⟩ } : Roster).run sharing).agents.rows.Pairwise fun p q =>
      p.2.role = "r" → q.2.role = "r" → p.2.state = .running → q.2.state = .running →
        ∃ total i j : Int, p.2.total = some total ∧ q.2.total = some total ∧
          p.2.index = some i ∧ q.2.index = some j ∧ i ≠ j :=
  ⟨by decide +kernel, running_records_apart "r" ⟨0⟩ sharing (by decide +kernel)⟩

end Roster

end OutboxCluster
