import OutboxCluster.Proofs.Lease
import OutboxCluster.Proofs.Ownership

/-!
# Links that Keep Apart

In a run in which every inserted record stays, no two links ever remember the same
id. This is what the ledger of insertions says of such a run: nothing was taken
back, so every id that a link remembers is that of a record which it has inserted
itself. The ledger is a means and not part of the result, so it is hidden here, and
the laws about such runs speak of ids only.

## Main definitions

* `Roster.Separate`: No link remembers an id that was given back.

## Theorems

* `Separate.distinct`: An id is remembered by one link at most.
* `separate_step`: Every event whose insertions stay keeps the links separate.
-/

namespace OutboxCluster

namespace Roster

/-- Every id that a link remembers is that of a record which it has inserted. -/
def Separate (m : Roster) : Prop := ∃ h : Ledger, Accounted m h ∧ h.undone = []

namespace Separate

variable {m : Roster}

theorem ordered (h : Separate m) : m.agents.Ordered := by
  rcases h with ⟨_, hacc, _⟩
  exact hacc.ordered

/-- The record was inserted by the link that remembers it. -/
theorem inserted {h : Ledger} (hacc : Accounted m h) (hundone : h.undone = []) {name : String}
    {member : Member} {id : Int} (hfind : m.find? name = some member)
    (hself : member.link.selfId = some id) : (name, id) ∈ h.inserted :=
  hacc.own name member id hfind hself (by rw [hundone]; exact List.not_mem_nil)

theorem known (h : Separate m) {name : String} {member : Member} {id : Int}
    (hfind : m.find? name = some member) (hself : member.link.selfId = some id) :
    id ≤ m.agents.lastId := by
  rcases h with ⟨_, hacc, hundone⟩
  exact hacc.known name id (inserted hacc hundone hfind hself)

theorem distinct (h : Separate m) {name name' : String} {member member' : Member} {id : Int}
    (hfind : m.find? name = some member) (hfind' : m.find? name' = some member')
    (hself : member.link.selfId = some id) (hself' : member'.link.selfId = some id) :
    name = name' := by
  rcases h with ⟨_, hacc, hundone⟩
  exact hacc.single name name' id (inserted hacc hundone hfind hself)
    (inserted hacc hundone hfind' hself')

end Separate

theorem separate_init (wall : WallClock) : Separate { wall } := ⟨{}, accounted_init wall, rfl⟩

/-- An event whose insertions stay takes nothing back. -/
theorem Ledger.undone_note {h : Ledger} {e : Event} {ids : List Int} {t : AgentTable}
    (hundone : h.undone = []) (hids : ∀ id ∈ ids, id ∈ t.ids) : (h.note e ids t).undone = [] := by
  cases e with
  | join name role configured expiration =>
      simp only [note, forget, hundone, List.filter_nil]
  | pulse name waited =>
      -- The ids are entered one after the other, and each of them is there.
      simp only [note]
      induction ids generalizing h with
      | nil => exact hundone
      | cons id ids ih =>
          rw [List.foldl_cons, if_pos (hids id List.mem_cons_self)]
          refine ih ?_ (fun id' hid' => hids id' (List.mem_cons_of_mem _ hid'))
          simp only [insertion, hundone, List.filter_nil]
  | _ => exact hundone

/-- Every event whose insertions stay keeps the links separate. -/
theorem separate_step {m : Roster} {e : Event} (h : Separate m) (hcommits : Commits m e) :
    Separate (m.step e).1 := by
  rcases h with ⟨ledger, hacc, hundone⟩
  exact ⟨_, accounted_step hacc e, Ledger.undone_note hundone hcommits⟩

end Roster

end OutboxCluster
