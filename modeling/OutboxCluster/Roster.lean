import OutboxCluster.Link.Pulse

/-!
# Rosters of Links

Several links over one table. Each link acts when it is told to, one at a time,
and reads two clocks that all of them share. A pulse, a renewal or a departure is
one step, which takes place when its session is opened, and time passes in steps
of its own. A link reads its clocks before it asks for a session and may have to
wait for it, so a step says how long it has waited.

A link that is forgotten leaves its record behind, as a node does that crashes.
Records can also be added and removed behind the backs of the links, and every
use of the table by a link can be made to fail.

## Main definitions

* `Roster`: The table, the clocks and the links.
* `Waited`: How long an attempt has waited for its session.
* `Roster.Event`: What can happen.
* `Roster.step`: The state after an event, with what is reported.
* `Roster.breaksDown`: Whether a link breaks down in an event.
* `Roster.run`: The state after several events.
-/

namespace OutboxCluster

/-- A link and its access to the table. -/
structure Member where
  link : Link
  access : Access := {}

/-- Several links over one table. -/
structure Roster where
  wall : WallClock
  /-- The monotonic clock, in milliseconds. -/
  now : Nat := 0
  agents : AgentTable := {}
  members : List (String × Member) := []

/-- How far the two clocks have moved while an attempt waited for its session. -/
structure Waited where
  mono : Nat := 0
  wall : Int := 0
deriving DecidableEq, Repr

namespace Roster

/-- What can happen. -/
inductive Event where
  /-- A new link, in place of one of the same name. -/
  | join (name role : String) (configured : Option Assignment) (expiration : Nat)
  | pulse (name : String) (waited : Waited := {})
  | renew (name : String) (waited : Waited := {})
  | leave (name : String)
  /-- The link is forgotten and its record stays. -/
  | crash (name : String)
  | arm (name : String) (point : UsePoint) (times : Nat) (error : StoreError)
  /-- The access of the link is closed. -/
  | close (name : String)
  /-- Both clocks move on. -/
  | advance (wallMs : Int) (monoMs : Nat)
  | setClock (now : Int)
  /-- A record is added by somebody else. -/
  | put (row : AgentRow)
  /-- Records are removed by somebody else. -/
  | delete (ids : List Int)

/-- The link of this name. -/
def find? (m : Roster) (name : String) : Option Member :=
  (m.members.find? (·.1 == name)).map (·.2)

/-- The state with one link in place of that of the same name. -/
def setMember (m : Roster) (name : String) (member : Member) : Roster :=
  { m with members := (name, member) :: m.members.filter (·.1 != name) }

/-- When an attempt is made whose session is opened now. -/
def moment (m : Roster) (waited : Waited) : Moment :=
  { started := m.now - waited.mono, wall := m.wall.now - waited.wall, opened := m.now }

/-- Let a link make an attempt. -/
def attempt (m : Roster) (name : String) (waited : Waited)
    (act : Link → Moment → Access → AgentTable → Attempt) : Roster × List Notice :=
  match m.find? name with
  | none => (m, [])
  | some member =>
    let a := act member.link (m.moment waited) member.access m.agents
    ({ m with agents := a.table }.setMember name { link := a.link, access := a.access }, a.notices)

/-- Whether a link breaks down in an attempt that it makes now. -/
def breaksIn (m : Roster) (name : String) (waited : Waited)
    (act : Link → Moment → Access → AgentTable → Attempt) : Bool :=
  (m.find? name).any fun member =>
    (act member.link (m.moment waited) member.access m.agents).broken

/-- Change the access of a link. -/
def modifyAccess (m : Roster) (name : String) (change : Access → Access) : Roster :=
  match m.find? name with
  | none => m
  | some member => m.setMember name { member with access := change member.access }

/-- The state after an event, with what is reported. -/
def step (m : Roster) : Event → Roster × List Notice
  | .join name role configured expiration =>
    (m.setMember name { link := { name, role, configured, expiration } }, [])
  | .pulse name waited => m.attempt name waited Link.pulse
  | .renew name waited => m.attempt name waited Link.renew
  | .leave name => m.attempt name {} fun l _ access table => l.leave access table
  | .crash name => ({ m with members := m.members.filter (·.1 != name) }, [])
  | .arm name point times error =>
    (m.modifyAccess name fun a => { a with faults := a.faults.arm point times error }, [])
  | .close name => (m.modifyAccess name fun a => { a with closed := true }, [])
  | .advance wallMs monoMs => ({ m with wall := m.wall.advance wallMs, now := m.now + monoMs }, [])
  | .setClock now => ({ m with wall := m.wall.set now }, [])
  | .put row => ({ m with agents := m.agents.insert row }, [])
  | .delete ids => ({ m with agents := m.agents.delete ids }, [])

/-- Whether a link breaks down in what happens. -/
def breaksDown (m : Roster) : Event → Bool
  | .pulse name waited => m.breaksIn name waited Link.pulse
  | .renew name waited => m.breaksIn name waited Link.renew
  | .leave name => m.breaksIn name {} fun l _ access table => l.leave access table
  | _ => false

/-- The state after several events. -/
def run (m : Roster) (events : List Event) : Roster :=
  events.foldl (fun m e => (m.step e).1) m

end Roster

end OutboxCluster
