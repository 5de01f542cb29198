import OutboxCluster.Proofs.Run

/-!
# Who Inserted a Record

A link takes a record for its own if it has the id that the link remembers. The
id is remembered in the middle of the session that inserts the record, before the
update and the commit that may still stop it, and a session that stops gives the
id back to the table. The link goes on with an id that nobody has, and the next
record that anybody inserts gets it.

So a record with the remembered id need not be the one that the link inserted, and
`Ledger` tells the two cases apart. It is kept from outside, from what the links
report and what is in the table afterwards: which link has inserted which record
for good, and whose last insertion was taken back. A link that remembers an id has
inserted that record exactly if its last insertion was not taken back. As long as
this is so for all of them, no two links share a record, and none changes a live
record of another.

## Main definitions

* `Roster.Ledger`: Who inserted which record, and whose insertion was taken back.
* `Roster.Ledger.note`, `Roster.ledger`: The ledger after an event, and of a run.
* `Roster.Accounted`: The invariant.

## Theorems

* `Accounted.act`, `Accounted.insertion`, `Accounted.undoing`, `Accounted.join`: What
  an event does to the ledger.
* `accounted_step`: Every event keeps the invariant.
* `attempt_spares`: An attempt leaves live records of others alone.
* `inserted_iff_not_undone`: Which remembered ids are those of own records.
-/

namespace OutboxCluster

namespace Roster

/-- Who inserted which record, and whose insertion was taken back. -/
structure Ledger where
  /-- The links with the ids of the records that they have inserted for good. -/
  inserted : List (String × Int) := []
  /-- The links whose last insertion was taken back. -/
  undone : List String := []

namespace Ledger

/-- A link under this name has just joined. -/
def forget (h : Ledger) (name : String) : Ledger :=
  { inserted := h.inserted.filter (·.1 != name), undone := h.undone.filter (· != name) }

/-- The link has inserted a record for good. -/
def insertion (h : Ledger) (name : String) (id : Int) : Ledger :=
  { inserted := (name, id) :: h.inserted, undone := h.undone.filter (· != name) }

/-- The insertion of the link was taken back. -/
def undoing (h : Ledger) (name : String) : Ledger := { h with undone := name :: h.undone }

/-- The ledger after an event that has reported records as inserted under `ids` and
    has left the table `t`. -/
def note (h : Ledger) (e : Event) (ids : List Int) (t : AgentTable) : Ledger :=
  match e with
  | .join name .. => h.forget name
  | .pulse name _ =>
    ids.foldl (fun h id => if id ∈ t.ids then h.insertion name id else h.undoing name) h
  | _ => h

theorem note_nil {e : Event} {name : String} (hactor : e.actor? = some name) (h : Ledger)
    (t : AgentTable) : h.note e [] t = h := by
  cases e with
  | join => exact nomatch hactor
  | _ => rfl

theorem note_of_mem {name : String} {waited : Waited} {id : Int} {t : AgentTable} (h : Ledger)
    (hmem : id ∈ t.ids) : h.note (.pulse name waited) [id] t = h.insertion name id :=
  if_pos hmem

theorem note_of_not_mem {name : String} {waited : Waited} {id : Int} {t : AgentTable} (h : Ledger)
    (hmem : id ∉ t.ids) : h.note (.pulse name waited) [id] t = h.undoing name :=
  if_neg hmem

end Ledger

/-- The ledger of a run. -/
def ledger (m : Roster) (h : Ledger) : List Event → Ledger
  | [] => h
  | e :: es =>
    ledger (m.step e).1 (h.note e (registrations (m.step e).2) (m.step e).1.agents) es

/-- The ledger fits what the links remember. -/
structure Accounted (m : Roster) (h : Ledger) : Prop where
  ordered : m.agents.Ordered
  known : ∀ name id, (name, id) ∈ h.inserted → id ≤ m.agents.lastId
  /-- A record was inserted by one link. -/
  single : ∀ name name' id, (name, id) ∈ h.inserted → (name', id) ∈ h.inserted → name = name'
  own : ∀ name member id, m.find? name = some member → member.link.selfId = some id →
    name ∉ h.undone → (name, id) ∈ h.inserted
  stale : ∀ name member id, m.find? name = some member → member.link.selfId = some id →
    name ∈ h.undone → (name, id) ∉ h.inserted

theorem accounted_init (wall : WallClock) : Accounted { wall } {} where
  ordered := Table.ordered_empty
  known := fun _ _ hmem => absurd hmem List.not_mem_nil
  single := fun _ _ _ hmem => absurd hmem List.not_mem_nil
  own := fun _ _ _ hfind => absurd hfind (by simp [find?])
  stale := fun _ _ _ hfind => absurd hfind (by simp [find?])

namespace Accounted

variable {m : Roster} {h : Ledger} {name : String} {member : Member} {t' : AgentTable} {l : Link}
  {access : Access}

/-- Nobody remembers an id that the link of this name did not remember before. -/
theorem pass (hacc : Accounted m h) {m' : Roster} (hord : m'.agents.Ordered)
    (hlast : m.agents.lastId ≤ m'.agents.lastId)
    (hmembers : ∀ name member' id, m'.find? name = some member' → member'.link.selfId = some id →
      ∃ member, m.find? name = some member ∧ member.link.selfId = some id) : Accounted m' h where
  ordered := hord
  known := fun name id hmem => Int.le_trans (hacc.known name id hmem) hlast
  single := hacc.single
  own := by
    intro name member' id hfind hself
    rcases hmembers name member' id hfind hself with ⟨member, hfind', hself'⟩
    exact hacc.own name member id hfind' hself'
  stale := by
    intro name member' id hfind hself
    rcases hmembers name member' id hfind hself with ⟨member, hfind', hself'⟩
    exact hacc.stale name member id hfind' hself'

/-- A link goes on with its id, or forgets it. -/
theorem act (hacc : Accounted m h) (hfind : m.find? name = some member) (hord : t'.Ordered)
    (hlast : m.agents.lastId ≤ t'.lastId)
    (hself : l.selfId = none ∨ l.selfId = member.link.selfId) :
    Accounted ({ m with agents := t' }.setMember name { link := l, access }) h := by
  refine hacc.pass hord hlast (fun name' member' id hfind' hself' => ?_)
  rcases cases_setMember hfind' with ⟨rfl, rfl⟩ | ⟨_, hbefore⟩
  · rcases hself with hnone | heq
    · exact nomatch hnone.symm.trans hself'
    · exact ⟨member, hfind, heq.symm.trans hself'⟩
  · exact ⟨member', hbefore, hself'⟩

/-- A link joins and remembers nothing, and nobody has lost anything under its
    name. -/
theorem join (hacc : Accounted m h) (hself : l.selfId = none) :
    Accounted (m.setMember name { link := l }) (h.forget name) where
  ordered := hacc.ordered
  known := fun name' id hmem => hacc.known name' id (List.mem_filter.mp hmem).1
  single := fun name₁ name₂ id h₁ h₂ =>
    hacc.single name₁ name₂ id (List.mem_filter.mp h₁).1 (List.mem_filter.mp h₂).1
  own := by
    intro name' member' id hfind' hself' hkept
    rcases cases_setMember hfind' with ⟨rfl, rfl⟩ | ⟨hne, hbefore⟩
    · exact nomatch hself.symm.trans hself'
    · have hkept' : name' ∉ h.undone :=
        fun hmem => hkept (List.mem_filter.mpr ⟨hmem, bne_iff_ne.mpr hne⟩)
      exact List.mem_filter.mpr
        ⟨hacc.own name' member' id hbefore hself' hkept', bne_iff_ne.mpr hne⟩
  stale := by
    intro name' member' id hfind' hself' hundone hmem
    rcases cases_setMember hfind' with ⟨rfl, rfl⟩ | ⟨_, hbefore⟩
    · exact nomatch hself.symm.trans hself'
    · exact hacc.stale name' member' id hbefore hself' (List.mem_filter.mp hundone).1
        (List.mem_filter.mp hmem).1

/-- A link has inserted a record for good and remembers its id. -/
theorem insertion (hacc : Accounted m h) (hord : t'.Ordered) (hlast : m.agents.lastId ≤ t'.lastId)
    (hnew : m.agents.nextId ∈ t'.ids) (hself : l.selfId = some m.agents.nextId) :
    Accounted ({ m with agents := t' }.setMember name { link := l, access })
      (h.insertion name m.agents.nextId) where
  ordered := hord
  known := by
    intro name' id hmem
    rcases List.mem_cons.mp hmem with heq | hmem
    · rw [(Prod.mk.inj heq).2]
      exact hord.id_le_lastId hnew
    · exact Int.le_trans (hacc.known name' id hmem) hlast
  single := by
    -- The id is above all those that were ever given.
    have hfresh : ∀ name' id, (name', id) ∈ h.inserted → id ≠ m.agents.nextId := by
      intro name' id hmem
      have := hacc.known name' id hmem
      rw [Table.nextId]
      omega
    intro name₁ name₂ id h₁ h₂
    rcases List.mem_cons.mp h₁ with heq₁ | h₁ <;> rcases List.mem_cons.mp h₂ with heq₂ | h₂
    · rw [(Prod.mk.inj heq₁).1, (Prod.mk.inj heq₂).1]
    · exact absurd (Prod.mk.inj heq₁).2 (hfresh name₂ id h₂)
    · exact absurd (Prod.mk.inj heq₂).2 (hfresh name₁ id h₁)
    · exact hacc.single name₁ name₂ id h₁ h₂
  own := by
    intro name' member' id hfind' hself' hkept
    rcases cases_setMember hfind' with ⟨rfl, rfl⟩ | ⟨hne, hbefore⟩
    · rw [← Option.some.inj (hself.symm.trans hself')]
      exact List.mem_cons_self
    · have hkept' : name' ∉ h.undone :=
        fun hmem => hkept (List.mem_filter.mpr ⟨hmem, bne_iff_ne.mpr hne⟩)
      exact List.mem_cons_of_mem _ (hacc.own name' member' id hbefore hself' hkept')
  stale := by
    intro name' member' id hfind' hself' hundone hmem
    rcases List.mem_filter.mp hundone with ⟨hundone', hne⟩
    rw [bne_iff_ne] at hne
    rcases cases_setMember hfind' with ⟨heq, _⟩ | ⟨_, hbefore⟩
    · exact hne heq
    · rcases List.mem_cons.mp hmem with heq | hmem
      · exact hne (Prod.mk.inj heq).1
      · exact hacc.stale name' member' id hbefore hself' hundone' hmem

/-- The insertion of a link was taken back, and it remembers the id or none. -/
theorem undoing (hacc : Accounted m h) (hself : l.selfId = none ∨ l.selfId = some m.agents.nextId) :
    Accounted (m.setMember name { link := l, access }) (h.undoing name) where
  ordered := hacc.ordered
  known := hacc.known
  single := hacc.single
  own := by
    intro name' member' id hfind' hself' hkept
    rcases not_or.mp (fun hmem => hkept (List.mem_cons.mpr hmem)) with ⟨hne, hkept'⟩
    rcases cases_setMember hfind' with ⟨heq, _⟩ | ⟨_, hbefore⟩
    · exact absurd heq hne
    · exact hacc.own name' member' id hbefore hself' hkept'
  stale := by
    intro name' member' id hfind' hself' hundone hmem
    rcases cases_setMember hfind' with ⟨rfl, rfl⟩ | ⟨hne, hbefore⟩
    · rcases hself with hnone | hnext
      · exact nomatch hnone.symm.trans hself'
      · -- The id that was given back is above all those of records that stayed.
        have hknown := hacc.known _ id hmem
        rw [← Option.some.inj (hnext.symm.trans hself'), Table.nextId] at hknown
        omega
    · rcases List.mem_cons.mp hundone with heq | hundone'
      · exact absurd heq hne
      · exact hacc.stale name' member' id hbefore hself' hundone' hmem

end Accounted

/-- Every event keeps the invariant. -/
theorem accounted_step {m : Roster} {h : Ledger} (hacc : Accounted m h) (e : Event) :
    Accounted (m.step e).1 (h.note e (registrations (m.step e).2) (m.step e).1.agents) := by
  have hout := outcome_step m e
  generalize m.step e = after at hout ⊢
  rcases after with ⟨m', notices⟩
  dsimp only at hout ⊢
  generalize registrations notices = ids at hout ⊢
  -- An event that is about no link leaves all of them as they are.
  have hquiet : ∀ {m' : Roster}, m'.agents.Ordered → m.agents.lastId ≤ m'.agents.lastId →
      m'.members = m.members → Accounted m' h := by
    intro m' hord hlast hmembers
    refine hacc.pass hord hlast (fun name member' id hfind hself => ⟨member', ?_, hself⟩)
    rw [find?, ← hmembers]
    exact hfind
  cases hout with
  | absent hactor _ =>
      rw [Ledger.note_nil hactor]
      exact hacc
  | join name role configured expiration => exact hacc.join rfl
  | @wrote name _ _ _ me _ _ _ hfind hwrites hids =>
      have hord := hwrites.ordered hacc.ordered
      -- It wrote the record it remembered, or one that it has just inserted.
      rcases hids with ⟨rfl, hself, _⟩ | ⟨rfl, hnew⟩
      · exact hacc.act hfind hord hwrites.lastId_le (Or.inr hself.symm)
      · have hmem := Table.mem_ids_of_mem (hwrites.holds hacc.ordered)
        dsimp only at hmem
        rw [hnew] at hmem
        rw [agents_setMember, Ledger.note_of_mem h hmem]
        exact hacc.insertion hord hwrites.lastId_le hmem (congrArg some hnew)
  | stopped hfind hremembers =>
      -- The table is as it was, so a record that was inserted meanwhile is not there.
      have hgone : m.agents.nextId ∉ m.agents.ids := hacc.ordered.nextId_not_mem
      cases hremembers with
      | kept => exact hacc.act hfind hacc.ordered (Int.le_refl _) (Or.inr rfl)
      | taken =>
          rw [agents_setMember, Ledger.note_of_not_mem h hgone]
          exact hacc.undoing (Or.inr rfl)
      | forgotten hids =>
          rcases hids with rfl | rfl
          · exact hacc.act hfind hacc.ordered (Int.le_refl _) (Or.inl rfl)
          · rw [agents_setMember, Ledger.note_of_not_mem h hgone]
            exact hacc.undoing (Or.inl rfl)
  | renewed hfind hrenews =>
      exact hacc.act hfind (hrenews.ordered hacc.ordered) (Int.le_of_eq hrenews.lastId.symm)
        (Or.inr rfl)
  | refused hfind hlink =>
      rcases hlink with rfl | rfl <;>
        exact hacc.act hfind hacc.ordered (Int.le_refl _) (Or.inr rfl)
  | left hfind _ htable =>
      rcases htable with rfl | rfl
      · exact hacc.act hfind (hacc.ordered.delete _) (Int.le_refl _) (Or.inl rfl)
      · exact hacc.act hfind hacc.ordered (Int.le_refl _) (Or.inl rfl)
  | kept hactor hfind =>
      rw [Ledger.note_nil hactor]
      exact hacc.act hfind hacc.ordered (Int.le_refl _) (Or.inr rfl)
  | crash name =>
      refine hacc.pass hacc.ordered (Int.le_refl _) (fun name' member' id hfind hself => ?_)
      rw [find?_crash] at hfind
      split at hfind
      · cases hfind
      · exact ⟨member', hfind, hself⟩
  | advance wallMs monoMs => exact hquiet hacc.ordered (Int.le_refl _) rfl
  | setClock now => exact hquiet hacc.ordered (Int.le_refl _) rfl
  | put row =>
      refine hquiet (hacc.ordered.insert row) ?_ rfl
      rw [Table.lastId_insert, Table.nextId]
      omega
  | delete gone => exact hquiet (hacc.ordered.delete gone) (Int.le_refl _) rfl

/-- The ledger of a run fits the state after it. -/
theorem accounted_run {m : Roster} {h : Ledger} (hacc : Accounted m h) (events : List Event) :
    Accounted (m.run events) (m.ledger h events) := by
  induction events generalizing m h with
  | nil => exact hacc
  | cons e es ih => exact ih (accounted_step hacc e)

/-- An attempt of a link whose last insertion was not taken back leaves alone every
    record that it has not inserted, as long as that is live by the clock that the
    attempt has read. -/
theorem attempt_spares {m : Roster} {h : Ledger} (hacc : Accounted m h) {e : Event}
    {name : String} (hactor : e.actor? = some name) (hkept : name ∉ h.undone) {id : Int}
    (hid : id ∈ m.agents.ids) (hother : (name, id) ∉ h.inserted) :
    m.agents.Spares (m.step e).1.agents (m.moment e.waited).wall id := by
  have hout := outcome_step m e
  generalize (m.step e).1 = m' at hout ⊢
  generalize registrations (m.step e).2 = ids at hout
  -- The id is not the one that the link remembers.
  have hself : ∀ member, m.find? name = some member → member.link.selfId ≠ some id :=
    fun member hfind hself => hother (hacc.own name member id hfind hself hkept)
  cases hout with
  | join | crash | advance | setClock | put | delete => exact nomatch hactor
  | absent | stopped | refused | kept => exact AgentTable.spares_refl _ _ id
  | @wrote _ _ member _ _ _ _ _ hfind hwrites hids =>
      cases hactor
      refine hwrites.spares hacc.ordered (Int.le_refl _) (fun heq => ?_)
      rcases hids with ⟨_, hown, _⟩ | ⟨_, hnew⟩
      · exact hself member hfind (heq ▸ hown)
      · rw [heq, hnew] at hid
        exact hacc.ordered.nextId_not_mem hid
  | @renewed _ _ member _ _ hfind hrenews =>
      cases hactor
      exact hrenews.spares hacc.ordered (hself member hfind)
  | @left _ member _ _ _ hfind hown htable =>
      cases hactor
      rcases htable with rfl | rfl
      · exact AgentTable.spares_delete (fun heq => hself member hfind (heq ▸ hown))
      · exact AgentTable.spares_refl _ _ id

/-- The id that a link remembers is that of a record which it has inserted, exactly
    if its last insertion was not taken back. No two links of which this is so
    remember the same id, and none of them changes a live record of another. -/
theorem inserted_iff_not_undone (wall : WallClock) (events : List Event) :
    (∀ name member id, (({ wall } : Roster).run events).find? name = some member →
      member.link.selfId = some id →
      ((name, id) ∈ (({ wall } : Roster).ledger {} events).inserted ↔
        name ∉ (({ wall } : Roster).ledger {} events).undone)) ∧
    (∀ name name' member member' id, name ≠ name' →
      (({ wall } : Roster).run events).find? name = some member →
      (({ wall } : Roster).run events).find? name' = some member' →
      name ∉ (({ wall } : Roster).ledger {} events).undone →
      name' ∉ (({ wall } : Roster).ledger {} events).undone →
      member.link.selfId = some id → member'.link.selfId ≠ some id) ∧
    (∀ e name id, e.actor? = some name →
      name ∉ (({ wall } : Roster).ledger {} events).undone →
      id ∈ (({ wall } : Roster).run events).agents.ids →
      (name, id) ∉ (({ wall } : Roster).ledger {} events).inserted →
      (({ wall } : Roster).run events).agents.Spares
        ((({ wall } : Roster).run events).step e).1.agents
        ((({ wall } : Roster).run events).moment e.waited).wall id) := by
  have hacc : Accounted (({ wall } : Roster).run events) (({ wall } : Roster).ledger {} events) :=
    accounted_run (accounted_init wall) events
  generalize ({ wall } : Roster).run events = m at hacc ⊢
  generalize ({ wall } : Roster).ledger {} events = h at hacc ⊢
  refine ⟨fun name member id hfind hself => ⟨fun hmem hundone => ?_, ?_⟩, ?_, ?_⟩
  · exact hacc.stale name member id hfind hself hundone hmem
  · exact hacc.own name member id hfind hself
  -- Both have registered under the id, and an id is given once.
  · intro name name' member member' id hne hfind hfind' hkept hkept' hself hself'
    exact hne (hacc.single name name' id (hacc.own name member id hfind hself hkept)
      (hacc.own name' member' id hfind' hself' hkept'))
  · intro e name id hactor hkept hid hother
    exact attempt_spares hacc hactor hkept hid hother

/-- One link's insertion is taken back, and another one inserts a record. -/
def takeover : List Event :=
  [.join "a" "r" none 3000, .join "b" "r" none 3000, .arm "a" .commit 1 .database, .pulse "a",
    .pulse "b"]

/-- The id that was given back is that of the other link's record, and the first link
    takes it for its own: it runs with the shard of that record. -/
theorem takeover_shares_record :
    ((({ wall := ⟨0⟩ } : Roster).run takeover).find? "a").map (·.link.selfId) = some (some 1) ∧
    (({ wall := ⟨0⟩ } : Roster).run takeover).agents.ids = [1] ∧
    (({ wall := ⟨0⟩ } : Roster).ledger {} takeover).inserted = [("b", 1)] ∧
    (({ wall := ⟨0⟩ } : Roster).ledger {} takeover).undone = ["a"] ∧
    ∀ name ∈ ["a", "b"],
      ((({ wall := ⟨0⟩ } : Roster).run (takeover ++ [.pulse "a", .pulse "b"])).find? name).map
        (fun member => (member.link.snapshot.agentId, member.link.snapshot.canProcess 0)) =
      some (some 1, true) := by
  decide +kernel

end Roster

end OutboxCluster
