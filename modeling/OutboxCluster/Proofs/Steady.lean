import OutboxCluster.Proofs.Separate
import OutboxCluster.Proofs.Unfailing

/-!
# Steady Times

A time in which the links of a role neither come nor go: they pulse and renew, their
attempts come through, and no lease ends. Leases that are over at the start of such a
time stay over, and the records with them may still be there, so `lapsed` is the list of
their ids. It need not be kept up to date. Nobody renews such a record, an agent that
has lost its own registers again under an id that is not in the list, and the first
pulse removes them all.

In a steady time an agent that has a live record keeps it. `Stands` says so of one
agent, and `Gathered` is what is true from the start: whatever is live belongs to one
of the links. There are two kinds of events. Either one of the links pulses, or nothing
happens that anybody could see from the records or from what the links publish, but for
the ends of leases (`Quiet`).

## Main definitions

* `Roster.OverAt`: The records whose lease is over at a reading.
* `Roster.Steady`: An event of a steady time.
* `Roster.Stands`: A link with its live record.
* `Roster.Gathered`: Whatever is live belongs to one of the links.
* `Roster.Quiet`: Nothing has changed but the ends of leases.

## Theorems

* `steady_cases`: A steady event is a pulse, or it is quiet.
* `Stands.pulse`, `Stands.spared`: What a pulse does to the one who pulses and to the
  others.
* `gathered_step`: Every steady event keeps the links gathered.
* `Along.block`: What every pulse brings about and nothing destroys is true of all links
  after each of them has pulsed.
-/

namespace OutboxCluster

namespace AgentTable

/-- The ids of the records of a role. -/
def roll (t : AgentTable) (role : String) : List Int :=
  (t.rows.filter (·.2.role == role)).map (·.1)

/-- What the records say of states and shards. -/
def claims (t : AgentTable) : List (Int × AgentState × Option Int × Option Int) :=
  t.rows.map fun p => (p.1, p.2.state, p.2.total, p.2.index)

variable {t : AgentTable} {role : String}

theorem mem_roll {id : Int} : id ∈ t.roll role ↔ ∃ row, (id, row) ∈ t.rows ∧ row.role = role := by
  simp only [roll, List.mem_map, List.mem_filter, beq_iff_eq, Prod.exists, exists_and_right,
    exists_eq_right]

theorem Holds.mem_roll {a : Agent} (h : t.Holds a) (hrole : a.role = role) : a.id ∈ t.roll role :=
  AgentTable.mem_roll.mpr ⟨a.row, h, hrole⟩

theorem roll_eq_of_list {agents : List Agent} (h : t.list role = .ok agents) :
    t.roll role = agents.map (·.id) := by
  rw [roll, list_eq_ok_iff.mp h, List.map_map]
  rfl

theorem roll_ascending (hord : t.Ordered) : (t.roll role).Pairwise (· < ·) :=
  List.pairwise_map.mpr (hord.ascending.filter _)

/-- Overwriting a record changes neither id nor role. -/
theorem roll_overwrite (a : Agent) : (t.overwrite a).roll role = t.roll role := by
  have hrow : ∀ p : Int × AgentRow,
      (if p.1 = a.id then (a.id, if p.2.role = a.role then a.row else p.2) else p).1 = p.1 ∧
      (if p.1 = a.id then (a.id, if p.2.role = a.role then a.row else p.2) else p).2.role =
        p.2.role := by
    intro p
    by_cases hid : p.1 = a.id
    · rw [if_pos hid]
      refine ⟨hid.symm, ?_⟩
      by_cases hrole : p.2.role = a.role
      · rw [if_pos hrole]
        exact hrole.symm
      · rw [if_neg hrole]
    · rw [if_neg hid]
      exact ⟨rfl, rfl⟩
  simp only [roll, overwrite, Table.modify, List.filter_map, List.map_map, Function.comp_def,
    (hrow _).1, (hrow _).2]

/-- Overwriting a record with one that says the same changes no claim. -/
theorem claims_overwrite (hord : t.Ordered) {a b : Agent} (ha : t.Holds a) (hid : b.id = a.id)
    (hstate : b.state = a.state) (htotal : b.total = a.total) (hindex : b.index = a.index) :
    (t.overwrite b).claims = t.claims := by
  rw [claims, overwrite, Table.modify, List.map_map]
  refine List.map_congr_left (fun p hp => ?_)
  rw [Function.comp_apply]
  by_cases hpid : p.1 = b.id
  · have hsame : p = (a.id, a.row) := hord.eq_of_id_eq hp ha (hpid.trans hid)
    rw [if_pos hpid]
    subst hsame
    by_cases hrole : (a.id, a.row).2.role = b.role
    · rw [if_pos hrole]
      simp only [Agent.row, hid, hstate, htotal, hindex]
    · rw [if_neg hrole, hid]
  · rw [if_neg hpid]

end AgentTable

/-- What a node says of its state and its shard, and for which record. -/
def Snapshot.claim (s : Snapshot) : Option Int × AgentState × Option Assignment :=
  (s.agentId, s.state, s.assignment)

section Writes

variable {l : Link} {now : Int} {t t' : AgentTable} {me : Agent}

/-- The record that was written is a new one, or was live before. -/
theorem Link.Writes.id_live (h : l.Writes now t me t') :
    (∃ own, t.Holds own ∧ own.role = l.role ∧ own.id = me.id ∧ ¬ own.expiration < now) ∨
      me.id = t.nextId := by
  rcases h with ⟨agents, own, live, t₁, hlist, henrols, hme, _, _⟩
  have hid : me.id = own.id := by
    rw [hme, (Link.leased_fields _ _ _ _).1, (Link.decision_fields _ _ _).1]
  cases henrols with
  | own hmem _ =>
      have hlive := List.mem_filter.mp hmem
      have hheld := (AgentTable.mem_list_iff hlist).mp hlive.1
      refine Or.inl ⟨own, hheld.1, hheld.2, hid.symm, fun hexpired => ?_⟩
      rw [Agent.isExpired, decide_eq_true hexpired] at hlive
      exact Bool.noConfusion hlive.2
  | new _ => exact Or.inr hid

/-- Where no lease is over, a pulse of an agent that has a record decides from all the
    records of the role and overwrites the own one. -/
theorem Link.Writes.settles (hord : t.Ordered) (h : l.Writes now t me t') {a : Agent}
    (ha : t.Holds a) (hrole : a.role = l.role) (hself : l.selfId = some a.id)
    (hlive : ∀ p ∈ t.rows, p.2.role = l.role → ¬ p.2.expiration < now) :
    ∃ agents, t.list l.role = .ok agents ∧
      me = l.leased now (l.decision a agents) agents ∧ t' = t.overwrite me := by
  rcases h with ⟨agents, own, live, t₁, hlist, henrols, hme, _, ht'⟩
  have hexpired : ∀ b ∈ agents, b.isExpired now = false := by
    intro b hb
    have hheld := (AgentTable.mem_list_iff hlist).mp hb
    exact decide_eq_false (hlive _ hheld.1 hheld.2)
  have hnone : agents.filter (·.isExpired now) = [] := by
    refine List.filter_eq_nil_iff.mpr (fun b hb => ?_)
    rw [hexpired b hb]
    exact Bool.false_ne_true
  have hall : agents.filter (! ·.isExpired now) = agents := by
    refine List.filter_eq_self.mpr (fun b hb => ?_)
    rw [hexpired b hb]
    rfl
  -- Nothing is over, so the pulse decides on the table as it stands.
  rw [hnone, hall, List.map_nil, Table.delete_nil] at henrols
  have hmem : a ∈ agents := (AgentTable.mem_list_iff hlist).mpr ⟨ha, hrole⟩
  cases henrols with
  | own hown hid =>
      have hid' : own.id = a.id := Option.some.inj (hid.symm.trans hself)
      have hheld := (AgentTable.mem_list_iff hlist).mp hown
      rw [AgentTable.Holds.eq_of_id_eq hord hheld.1 ha hid'] at hme
      exact ⟨agents, hlist, hme, ht'⟩
  | new hmissing => exact absurd hself (hmissing a hmem)

end Writes

namespace Roster

/-- The link that pulses. -/
def Event.pulser? : Event → Option String
  | .pulse name _ => some name
  | _ => none

/-- The id that a link remembers. -/
def selfId? (m : Roster) (name : String) : Option Int := (m.find? name).bind (·.link.selfId)

/-- What a link publishes. -/
def snapshot? (m : Roster) (name : String) : Option Snapshot := (m.find? name).map (·.link.snapshot)

/-- The ids of the records of a role whose lease is over now. -/
def overdue (m : Roster) (role : String) : List Int :=
  (m.agents.rows.filter fun p => p.2.role == role && p.2.expiration < m.wall.now).map (·.1)

/-- The records of the role whose lease is over at a reading are those with the ids
    `lapsed`. -/
def OverAt (m : Roster) (role : String) (lapsed : List Int) (reading : Int) : Prop :=
  ∀ p ∈ m.agents.rows, p.2.role = role → (p.2.expiration < reading ↔ p.1 ∈ lapsed)

/-- An event of a time in which the links `names` of the role neither come nor go. The
    clocks move, or one of the links makes an attempt that does not fail; by the reading
    of the attempt the lease is over of those records that have the ids `lapsed`, and of no
    others. A renewal may find that the record is lost, if it is. -/
def Steady (role : String) (names : List String) (lapsed : List Int) (m : Roster) : Event → Prop
  | .pulse name waited =>
    name ∈ names ∧ m.OverAt role lapsed (m.moment waited).wall ∧ Unfailing m (.pulse name waited)
  | .renew name waited =>
    name ∈ names ∧ m.OverAt role lapsed (m.moment waited).wall ∧
      Unfailing m (.renew name waited) ∧
      (.recordLost ∈ (m.step (.renew name waited)).2 →
        ∀ id ∈ m.selfId? name, id ∈ m.agents.roll role → id ∈ lapsed)
  | .advance .. | .setClock _ => True
  | _ => False

instance (m : Roster) (role : String) (lapsed : List Int) (reading : Int) :
    Decidable (m.OverAt role lapsed reading) :=
  inferInstanceAs (Decidable (∀ p ∈ m.agents.rows,
    p.2.role = role → (p.2.expiration < reading ↔ p.1 ∈ lapsed)))

instance (role : String) (names : List String) (lapsed : List Int) (m : Roster) :
    ∀ e : Event, Decidable (Steady role names lapsed m e)
  | .pulse .. => inferInstanceAs (Decidable (_ ∧ _ ∧ _))
  | .renew name _ =>
    inferInstanceAs (Decidable (_ ∧ _ ∧ _ ∧ (_ →
      ∀ id ∈ m.selfId? name, id ∈ m.agents.roll role → id ∈ lapsed)))
  | .advance .. | .setClock _ => .isTrue trivial
  | .join .. | .leave _ | .crash _ | .arm .. | .close _ | .put _ | .delete _ => .isFalse id

theorem selfId?_of_find? {m : Roster} {name : String} {member : Member}
    (hfind : m.find? name = some member) : m.selfId? name = member.link.selfId := by
  rw [selfId?, hfind]
  rfl

theorem snapshot?_of_find? {m : Roster} {name : String} {member : Member}
    (hfind : m.find? name = some member) : m.snapshot? name = some member.link.snapshot := by
  rw [snapshot?, hfind]
  rfl

/-- The link `name` has the live record of `a`. -/
structure Stands (role : String) (lapsed : List Int) (m : Roster) (name : String) (member : Member)
    (a : Agent) : Prop where
  found : m.find? name = some member
  own : member.link.selfId = some a.id
  held : m.agents.Holds a
  role_eq : a.role = role
  live : a.id ∉ lapsed

/-- Whatever is live belongs to one of the links `names`, all of which are dynamic. -/
structure Gathered (role : String) (names : List String) (lapsed : List Int) (m : Roster) :
    Prop where
  separate : Separate m
  dynamic : ∀ name ∈ names, ∃ member, m.find? name = some member ∧ member.link.role = role ∧
    member.link.configured = none
  known : ∀ id ∈ lapsed, id ≤ m.agents.lastId
  owned : ∀ id ∈ m.agents.roll role, id ∉ lapsed → ∃ name ∈ names, m.selfId? name = some id

/-- Nothing has changed but the ends of leases, and what is published by links that have
    no live record. -/
structure Quiet (role : String) (lapsed : List Int) (m m' : Roster) : Prop where
  lastId : m'.agents.lastId = m.agents.lastId
  roll : m'.agents.roll role = m.agents.roll role
  claims : m'.agents.claims = m.agents.claims
  member : ∀ name member, m.find? name = some member → ∃ member', m'.find? name = some member' ∧
    member'.link.role = member.link.role ∧ member'.link.configured = member.link.configured ∧
    member'.link.selfId = member.link.selfId
  stands : ∀ name member a, Stands role lapsed m name member a → ∃ member' expiration,
    Stands role lapsed m' name member' { a with expiration } ∧
    member'.link.snapshot.claim = member.link.snapshot.claim

section Quiet

variable {role : String} {lapsed : List Int} {m : Roster}

/-- The clocks may move. -/
theorem Quiet.clock {m' : Roster} (hagents : m'.agents = m.agents)
    (hmembers : m'.members = m.members) : Quiet role lapsed m m' := by
  have hfind : ∀ name, m'.find? name = m.find? name := fun name => by rw [find?, find?, hmembers]
  refine ⟨by rw [hagents], by rw [hagents], by rw [hagents],
    fun name member h => ⟨member, (hfind name).trans h, rfl, rfl, rfl⟩, fun name member a h => ?_⟩
  refine ⟨member, a.expiration, ⟨(hfind name).trans h.found, h.own, ?_, h.role_eq, h.live⟩, rfl⟩
  rw [hagents]
  exact h.held

/-- A link may publish something else, if it has no live record. -/
theorem Quiet.member_changed {name : String} {member member' : Member}
    (hfind : m.find? name = some member)
    (hsame : member'.link.role = member.link.role ∧
      member'.link.configured = member.link.configured ∧ member'.link.selfId = member.link.selfId)
    (hclaim : ∀ a, Stands role lapsed m name member a →
      member'.link.snapshot.claim = member.link.snapshot.claim) :
    Quiet role lapsed m (m.setMember name member') := by
  refine ⟨rfl, rfl, rfl, fun name' member₀ hfind' => ?_, fun name' member₀ a h => ?_⟩
  · by_cases hname : name' = name
    · subst hname
      rw [hfind, Option.some.injEq] at hfind'
      subst hfind'
      exact ⟨member', find?_setMember_self, hsame⟩
    · exact ⟨member₀, (find?_setMember.trans (if_neg hname)).trans hfind', rfl, rfl, rfl⟩
  · by_cases hname : name' = name
    · subst hname
      have hsame' : member = member₀ := Option.some.inj (hfind.symm.trans h.found)
      subst hsame'
      exact ⟨member', a.expiration,
        ⟨find?_setMember_self, hsame.2.2.trans h.own, h.held, h.role_eq, h.live⟩, hclaim a h⟩
    · exact ⟨member₀, a.expiration, ⟨(find?_setMember.trans (if_neg hname)).trans h.found, h.own,
        h.held, h.role_eq, h.live⟩, rfl⟩

/-- A renewal moves the end of a lease. -/
theorem Quiet.renewed (hord : m.agents.Ordered) {name : String} {member : Member} {l : Link}
    {access : Access} {now : Int} {t' : AgentTable} (hfind : m.find? name = some member)
    (hrenews : member.link.Renews now m.agents t')
    (hsame : l.role = member.link.role ∧ l.configured = member.link.configured ∧
      l.selfId = member.link.selfId)
    (hclaim : l.snapshot.claim = member.link.snapshot.claim) :
    Quiet role lapsed m ({ m with agents := t' }.setMember name { link := l, access }) := by
  rcases hrenews with ⟨own, hself, hheld, hrole, _, rfl⟩
  have hholds : m.agents.holds { own with expiration := member.link.leaseEnd now } = true :=
    AgentTable.holds_iff.mpr ⟨own.row, hheld, rfl⟩
  -- An agent in the table is the own one, or it has another id.
  have hkept : ∀ a, m.agents.Holds a → ∃ expiration,
      (m.agents.overwrite { own with expiration := member.link.leaseEnd now }).Holds
        { a with expiration } := by
    intro a ha
    by_cases hid : a.id = own.id
    · rw [AgentTable.Holds.eq_of_id_eq hord ha hheld hid]
      exact ⟨_, (AgentTable.mem_overwrite hord hholds).mpr (Or.inl rfl)⟩
    · exact ⟨a.expiration, (AgentTable.mem_overwrite hord hholds).mpr (Or.inr ⟨ha, hid⟩)⟩
  refine ⟨rfl, AgentTable.roll_overwrite _, AgentTable.claims_overwrite hord hheld rfl rfl rfl rfl,
    fun name' member₀ hfind' => ?_, fun name' member₀ a h => ?_⟩
  · by_cases hname : name' = name
    · subst hname
      rw [hfind, Option.some.injEq] at hfind'
      subst hfind'
      exact ⟨_, find?_setMember_self, hsame⟩
    · exact ⟨member₀, (find?_setMember.trans (if_neg hname)).trans hfind', rfl, rfl, rfl⟩
  · rcases hkept a h.held with ⟨expiration, hheld'⟩
    by_cases hname : name' = name
    · subst hname
      have hsame' : member = member₀ := Option.some.inj (hfind.symm.trans h.found)
      subst hsame'
      exact ⟨_, expiration,
        ⟨find?_setMember_self, hsame.2.2.trans h.own, hheld', h.role_eq, h.live⟩, hclaim⟩
    · exact ⟨member₀, expiration, ⟨(find?_setMember.trans (if_neg hname)).trans h.found, h.own,
        hheld', h.role_eq, h.live⟩, rfl⟩

end Quiet

/-- One of the links has pulsed, and all others are as before. -/
structure Pulsed (role : String) (lapsed : List Int) (m m' : Roster) (name : String)
    (member member' : Member) (now : Int) (me : Agent) : Prop where
  found : m.find? name = some member
  others : ∀ name', name' ≠ name → m'.find? name' = m.find? name'
  found' : m'.find? name = some member'
  same : member'.link.role = member.link.role ∧ member'.link.configured = member.link.configured
  own : member'.link.selfId = some me.id
  claim : member'.link.snapshot.claim = (some me.id, me.state, me.assignment)
  writes : member.link.Writes now m.agents me m'.agents
  over_at : m.OverAt role lapsed now

/-- A steady event is a pulse, or it is quiet. -/
theorem steady_cases {role : String} {names : List String} {lapsed : List Int} {m : Roster}
    {e : Event} (hinv : Gathered role names lapsed m) (h : Steady role names lapsed m e) :
    (e.pulser? = none ∧ Quiet role lapsed m (m.step e).1) ∨
    ∃ name ∈ names, e.pulser? = some name ∧ ∃ member member' now me,
      Pulsed role lapsed m (m.step e).1 name member member' now me := by
  cases e with
  | pulse name waited =>
      rcases h with ⟨hname, hover, hunfailing⟩
      rcases hinv.dynamic name hname with ⟨member, hfind, _⟩
      rcases pulse_through hfind hunfailing with ⟨access, me, reported, t', hwrites, hstep, _⟩
      rw [hstep]
      exact Or.inr ⟨name, hname, rfl, member, _, _, me, hfind,
        fun name' hne => find?_setMember.trans (if_neg hne), find?_setMember_self, ⟨rfl, rfl⟩, rfl,
        rfl, hwrites, hover⟩
  | renew name waited =>
      rcases h with ⟨hname, hover, hunfailing, hlost⟩
      rcases hinv.dynamic name hname with ⟨member, hfind, hrole, _⟩
      refine Or.inl ⟨rfl, ?_⟩
      rcases renew_through hfind hunfailing with ⟨access, hstep | ⟨t', hrenews, hstep⟩ |
        ⟨hreported, hstep⟩⟩
      · rw [hstep]
        exact Quiet.member_changed hfind ⟨rfl, rfl, rfl⟩ (fun _ _ => rfl)
      · rw [hstep]
        exact Quiet.renewed hinv.separate.ordered hfind hrenews ⟨rfl, rfl, rfl⟩ rfl
      · rw [hstep]
        -- The agent is suspended, and it has no live record.
        refine Quiet.member_changed hfind ⟨rfl, rfl, rfl⟩ (fun a ha => ?_)
        have hself : m.selfId? name = some a.id := (selfId?_of_find? hfind).trans ha.own
        exact absurd (hlost hreported a.id hself (ha.held.mem_roll ha.role_eq)) ha.live
  | advance wallMs monoMs => exact Or.inl ⟨rfl, Quiet.clock rfl rfl⟩
  | setClock now => exact Or.inl ⟨rfl, Quiet.clock rfl rfl⟩
  | _ => exact h.elim

/-- A steady event takes nothing back. -/
theorem commits_of_steady {role : String} {names : List String} {lapsed : List Int} {m : Roster}
    {e : Event} (hord : m.agents.Ordered) (h : Steady role names lapsed m e) : Commits m e := by
  cases e with
  | pulse name waited => exact commits_of_unfailing hord h.2.2
  | renew name waited => exact commits_of_unfailing hord h.2.2.1
  | advance wallMs monoMs => exact fun id hid => absurd hid List.not_mem_nil
  | setClock now => exact fun id hid => absurd hid List.not_mem_nil
  | _ => exact h.elim

section Pulsed

variable {role : String} {names : List String} {lapsed : List Int} {m m' : Roster} {name : String}
  {member member' : Member} {now : Int} {me : Agent}

/-- The record that was written is live. -/
theorem Pulsed.me_live (h : Pulsed role lapsed m m' name member member' now me)
    (hrole : member.link.role = role) (hknown : ∀ id ∈ lapsed, id ≤ m.agents.lastId) :
    me.id ∉ lapsed := by
  rcases h.writes.id_live with ⟨own, hheld, hownRole, hid, hlive⟩ | hnew
  · intro hover
    rw [← hid] at hover
    exact hlive ((h.over_at _ hheld (hownRole.trans hrole)).mpr hover)
  · intro hover
    have hle := hknown _ hover
    rw [hnew, Table.nextId] at hle
    omega

/-- Who has pulsed has a live record. -/
theorem Stands.pulse (hord : m.agents.Ordered)
    (h : Pulsed role lapsed m m' name member member' now me) (hrole : member.link.role = role)
    (hknown : ∀ id ∈ lapsed, id ≤ m.agents.lastId) : Stands role lapsed m' name member' me where
  found := h.found'
  own := h.own
  held := h.writes.holds hord
  role_eq := (h.writes.role_eq hord).trans hrole
  live := h.me_live hrole hknown

/-- The others keep their live records. -/
theorem Stands.spared (hord : m.agents.Ordered) (hsep : Separate m')
    (h : Pulsed role lapsed m m' name member member' now me) {name₀ : String} {member₀ : Member}
    {a : Agent} (hstands : Stands role lapsed m name₀ member₀ a) (hne : name₀ ≠ name) :
    Stands role lapsed m' name₀ member₀ a := by
  have hfound := (h.others name₀ hne).trans hstands.found
  refine ⟨hfound, hstands.own, (h.writes.mem_rows hord).mpr (Or.inr ⟨?_, hstands.held, ?_⟩),
    hstands.role_eq, hstands.live⟩
  · intro hid
    have hid' : me.id = a.id := hid.symm
    exact hne (hsep.distinct hfound h.found' hstands.own (hid' ▸ h.own))
  · rintro ⟨_, hexpired⟩
    exact hstands.live ((h.over_at _ hstands.held hstands.role_eq).mp hexpired)

/-- A pulse removes all records whose lease is over. -/
theorem Pulsed.cleared (hord : m.agents.Ordered)
    (h : Pulsed role lapsed m m' name member member' now me) (hrole : member.link.role = role)
    (hknown : ∀ id ∈ lapsed, id ≤ m.agents.lastId) : ∀ id ∈ m'.agents.roll role, id ∉ lapsed := by
  intro id hid
  rcases AgentTable.mem_roll.mp hid with ⟨row, hrow, hrowRole⟩
  rcases (h.writes.mem_rows hord).mp hrow with heq | ⟨_, hbefore, hlive⟩
  · have hid' : id = me.id := congrArg Prod.fst heq
    rw [hid']
    exact h.me_live hrole hknown
  · intro hover
    exact hlive ⟨hrowRole.trans hrole.symm, (h.over_at _ hbefore hrowRole).mpr hover⟩

/-- After a pulse the live records belong to the links as before. -/
theorem Gathered.pulse (hinv : Gathered role names lapsed m) (hsep : Separate m')
    (hname : name ∈ names) (h : Pulsed role lapsed m m' name member member' now me) :
    Gathered role names lapsed m' := by
  have hord := hinv.separate.ordered
  have hdynamic : member.link.role = role ∧ member.link.configured = none := by
    rcases hinv.dynamic name hname with ⟨member₀, hfind, hrole, hconf⟩
    rw [Option.some.inj (h.found.symm.trans hfind)]
    exact ⟨hrole, hconf⟩
  refine ⟨hsep, fun name' hname' => ?_,
    fun id hid => Int.le_trans (hinv.known id hid) h.writes.lastId_le, fun id hid hlive => ?_⟩
  · by_cases hne : name' = name
    · subst hne
      exact ⟨member', h.found', h.same.1.trans hdynamic.1, h.same.2.trans hdynamic.2⟩
    · rw [h.others name' hne]
      exact hinv.dynamic name' hname'
  · have hself : m'.selfId? name = some me.id := (selfId?_of_find? h.found').trans h.own
    rcases AgentTable.mem_roll.mp hid with ⟨row, hrow, hrowRole⟩
    rcases (h.writes.mem_rows hord).mp hrow with heq | ⟨hidne, hbefore, hunexpired⟩
    · have hid' : id = me.id := congrArg Prod.fst heq
      exact ⟨name, hname, by rw [hself, hid']⟩
    · rcases hinv.owned id (AgentTable.mem_roll.mpr ⟨row, hbefore, hrowRole⟩) hlive with
        ⟨name', hname', hself'⟩
      by_cases hne : name' = name
      · -- An agent whose record was live has gone on with it.
        subst hne
        rw [selfId?_of_find? h.found] at hself'
        have hkept := h.writes.keeps_id hself' hbefore (hrowRole.trans hdynamic.1.symm)
          (fun hexpired => hunexpired ⟨hrowRole.trans hdynamic.1.symm, hexpired⟩)
        exact absurd hkept.symm hidne
      · refine ⟨name', hname', ?_⟩
        rw [selfId?, h.others name' hne]
        exact hself'

end Pulsed

section Steady

variable {role : String} {names : List String} {lapsed : List Int} {m m' : Roster}

/-- After a quiet event the live records belong to the links as before. -/
theorem Gathered.quiet (hinv : Gathered role names lapsed m) (hsep : Separate m')
    (h : Quiet role lapsed m m') : Gathered role names lapsed m' := by
  refine ⟨hsep, fun name hname => ?_, fun id hid => ?_, fun id hid hlive => ?_⟩
  · rcases hinv.dynamic name hname with ⟨member, hfind, hrole, hconf⟩
    rcases h.member name member hfind with ⟨member', hfind', hrole', hconf', _⟩
    exact ⟨member', hfind', hrole'.trans hrole, hconf'.trans hconf⟩
  · rw [h.lastId]
    exact hinv.known id hid
  · rw [h.roll] at hid
    rcases hinv.owned id hid hlive with ⟨name, hname, hself⟩
    rcases hinv.dynamic name hname with ⟨member, hfind, _⟩
    rcases h.member name member hfind with ⟨member', hfind', _, _, hself'⟩
    refine ⟨name, hname, ?_⟩
    rw [selfId?_of_find? hfind] at hself
    rw [selfId?_of_find? hfind', hself', hself]

/-- Every steady event keeps the links gathered. -/
theorem gathered_step {e : Event} (hinv : Gathered role names lapsed m)
    (h : Steady role names lapsed m e) : Gathered role names lapsed (m.step e).1 := by
  have hsep := separate_step hinv.separate (commits_of_steady hinv.separate.ordered h)
  rcases steady_cases hinv h with ⟨_, hquiet⟩ | ⟨name, hname, _, _, _, _, _, hpulsed⟩
  · exact hinv.quiet hsep hquiet
  · exact hinv.pulse hsep hname hpulsed

end Steady

section Blocks

variable {rule : Roster → Event → Prop} {m : Roster} {es es' : List Event}

theorem along_append : Along rule m (es ++ es') ↔ Along rule m es ∧ Along rule (m.run es) es' := by
  induction es generalizing m with
  | nil => exact ⟨fun h => ⟨trivial, h⟩, fun h => h.2⟩
  | cons e es ih =>
      rw [List.cons_append, Along, Along, ih, and_assoc]
      rfl

theorem run_append (m : Roster) (es es' : List Event) : m.run (es ++ es') = (m.run es).run es' :=
  List.foldl_append

/-- What a pulse brings about and no event destroys is true after a block in which the
    link has pulsed. -/
theorem Along.block {P : Roster → Prop} {Q : String → Roster → Prop} (h : Along rule m es)
    (hinit : P m) (hstep : ∀ m e, P m → rule m e → P (m.step e).1)
    (hkeep : ∀ m e name, P m → rule m e → Q name m → Q name (m.step e).1)
    (hpulse : ∀ m e name, P m → rule m e → e.pulser? = some name → Q name (m.step e).1)
    {name : String} (hname : name ∈ es.filterMap Event.pulser?) : Q name (m.run es) := by
  -- Once it is brought about it is kept to the end of the run.
  have hrest : ∀ es m, Along rule m es → P m → Q name m → Q name (m.run es) := by
    intro es
    induction es with
    | nil => exact fun _ _ _ hgoal => hgoal
    | cons e es ih =>
        exact fun m h hinv hgoal =>
          ih _ h.2 (hstep m e hinv h.1) (hkeep m e name hinv h.1 hgoal)
  induction es generalizing m with
  | nil => exact absurd hname List.not_mem_nil
  | cons e es ih =>
      have hinv := hstep m e hinit h.1
      cases hactor : e.pulser? with
      | none =>
          rw [List.filterMap_cons_none hactor] at hname
          exact ih h.2 hinv hname
      | some name' =>
          rw [List.filterMap_cons_some hactor, List.mem_cons] at hname
          rcases hname with rfl | hname
          · exact hrest es _ h.2 hinv (hpulse m e name hinit h.1 hactor)
          · exact ih h.2 hinv hname

end Blocks

end Roster

end OutboxCluster
