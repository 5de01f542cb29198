import OutboxCluster.Proofs.Custody
import OutboxCluster.Proofs.Settings
import Mathlib.Data.List.Nodup
import Mathlib.Data.List.Perm.Basic

/-!
# The Crew of a Cluster

The workers of a cluster, each with the name of its node. What two workers may not have
in common, or who has done what, is a matter of the crew and not of the nodes, and the
order of the crew does not matter either. So every event is described by what it does
to the crew, up to the order: a turn changes one worker, and everything else lets
workers come, brings them to an end, or starts them.

A worker is known by the name of its node and its own. No two nodes have one name,
since a node takes the place of the one of its name, and no two workers of a node do,
since their names come from distinct shards.

## Main definitions

* `Cluster.crew`, `post`: The workers, and what they are known by.
* `Cluster.Distinct`: No two are known by the same.
* `Restaffed`: What becomes of a crew apart from turns.
* `Cluster.Event.Ends`, `Brings`: Who is brought to an end by an event, and who comes.

## Theorems

* `turn_cases`: What a turn does to the crew.
* `outside_step`: What any other event does.
* `perform_cases`, `step_cases`, `due_cases`: Every event is the one or the other.
* `distinct_step`, `distinct_run`: No event brings two who are known by the same.
-/

namespace OutboxCluster

/-- What a worker is known by: the name of its node and its own. -/
def post (p : String × Worker) : String × String := (p.1, p.2.name)

/-- Who has made an entry. -/
def Stamp.post (who : Stamp) : String × String := (who.node, who.worker)

/-- The workers of a node, with its name. -/
def Node.crew (n : Node) : List (String × Worker) := n.body.workers.map fun w => (n.host.name, w)

/-- Between turns a worker stays as it is, or it is started, or it is brought to its
    end, where `Ends` says at which nodes that may be. -/
inductive Shifted (Ends : String → Prop) : String × Worker → String × Worker → Prop where
  | same (p : String × Worker) : Shifted Ends p p
  | started {node : String} {w : Worker} : w.wait = .held →
      Shifted Ends (node, w) (node, { w with wait := .launched })
  | ended {node : String} {w : Worker} : Ends node →
      Shifted Ends (node, w) (node, { w with wait := .over .aborted })

/-- Some workers stay, some are gone, and some come. -/
def Restaffed (Ends : String → Prop) (Brings : String → Worker → Prop)
    (crew crew' : List (String × Worker)) : Prop :=
  ∃ stay stay' gone come, crew.Perm (stay ++ gone) ∧ crew'.Perm (stay' ++ come) ∧
    List.Forall₂ (Shifted Ends) stay stay' ∧ (∀ p ∈ gone, Ends p.1) ∧ ∀ p ∈ come, Brings p.1 p.2

theorem Shifted.post_eq {Ends : String → Prop} {p p' : String × Worker} (h : Shifted Ends p p') :
    post p' = post p := by
  cases h <;> rfl

theorem Shifted.link_eq {Ends : String → Prop} {p p' : String × Worker} (h : Shifted Ends p p') :
    p'.2.link = p.2.link := by
  cases h <;> rfl

namespace Restaffed

variable {Ends : String → Prop} {Brings : String → Worker → Prop}
  {crew crew' others others' : List (String × Worker)}

/-- Nobody is gone and nobody comes. -/
theorem of_shifted (h : List.Forall₂ (Shifted Ends) crew crew') :
    Restaffed Ends Brings crew crew' := by
  refine ⟨crew, crew', [], [], ?_, ?_, h, fun _ hp => absurd hp List.not_mem_nil,
    fun _ hp => absurd hp List.not_mem_nil⟩
  · rw [List.append_nil]
  · rw [List.append_nil]

theorem refl (crew : List (String × Worker)) : Restaffed Ends Brings crew crew :=
  of_shifted (List.forall₂_same.mpr fun p _ => Shifted.same p)

/-- Everybody is gone, and others come. -/
theorem replaced (hgone : ∀ p ∈ crew, Ends p.1) (hcome : ∀ p ∈ crew', Brings p.1 p.2) :
    Restaffed Ends Brings crew crew' :=
  ⟨[], [], crew, crew', List.Perm.refl _, List.Perm.refl _, List.Forall₂.nil, hgone, hcome⟩

/-- One part of a crew next to another. -/
theorem append (h : Restaffed Ends Brings crew crew')
    (hothers : Restaffed Ends Brings others others') :
    Restaffed Ends Brings (crew ++ others) (crew' ++ others') := by
  rcases h with ⟨stay, stay', gone, come, hperm, hperm', hshifted, hgone, hcome⟩
  rcases hothers with ⟨stay₁, stay₁', gone₁, come₁, hperm₁, hperm₁', hshifted₁, hgone₁, hcome₁⟩
  -- Both crews are put together from the same parts, in another order.
  have hswap : ∀ a b d e : List (String × Worker),
      ((a ++ b) ++ (d ++ e)).Perm ((a ++ d) ++ (b ++ e)) := by
    intro a b d e
    rw [List.append_assoc, List.append_assoc]
    refine List.Perm.append_left a ?_
    rw [← List.append_assoc, ← List.append_assoc]
    exact List.perm_append_comm.append_right e
  refine ⟨stay ++ stay₁, stay' ++ stay₁', gone ++ gone₁, come ++ come₁,
    (hperm.append hperm₁).trans (hswap _ _ _ _), (hperm'.append hperm₁').trans (hswap _ _ _ _),
    List.rel_append hshifted hshifted₁, fun p hp => ?_, fun p hp => ?_⟩
  · exact (List.mem_append.mp hp).elim (hgone p) (hgone₁ p)
  · exact (List.mem_append.mp hp).elim (hcome p) (hcome₁ p)

/-- A crew of several nodes, node by node. -/
theorem flatMap {nodes : List Node} {change : Node → List (String × Worker)}
    (h : ∀ n ∈ nodes, Restaffed Ends Brings n.crew (change n)) :
    Restaffed Ends Brings (nodes.flatMap Node.crew) (nodes.flatMap change) := by
  induction nodes with
  | nil => exact refl []
  | cons n nodes ih =>
      rw [List.flatMap_cons, List.flatMap_cons]
      exact (h n List.mem_cons_self).append (ih fun n' hn' => h n' (List.mem_cons_of_mem n hn'))

/-- Who is there afterwards was there before, perhaps otherwise, or has come. -/
theorem mem_cases (h : Restaffed Ends Brings crew crew') {p : String × Worker} (hp : p ∈ crew') :
    (∃ p₀ ∈ crew, Shifted Ends p₀ p) ∨ Brings p.1 p.2 := by
  rcases h with ⟨stay, stay', gone, come, hperm, hperm', hshifted, _, hcome⟩
  rcases List.mem_append.mp (hperm'.mem_iff.mp hp) with hstay | hnew
  · rcases List.mem_iff_getElem.mp hstay with ⟨i, hi, heq⟩
    have hi₀ : i < stay.length := by
      rw [hshifted.length_eq]
      exact hi
    refine Or.inl ⟨stay[i], ?_, ?_⟩
    · exact hperm.mem_iff.mpr (List.mem_append_left gone (List.getElem_mem hi₀))
    · rw [← heq]
      exact hshifted.get hi₀ hi
  · exact Or.inr (hcome p hnew)

/-- Who was there before is still there, perhaps otherwise, or may have come to an end. -/
theorem cases_of_mem (h : Restaffed Ends Brings crew crew') {p : String × Worker} (hp : p ∈ crew) :
    (∃ p' ∈ crew', Shifted Ends p p') ∨ Ends p.1 := by
  rcases h with ⟨stay, stay', gone, come, hperm, hperm', hshifted, hgone, _⟩
  rcases List.mem_append.mp (hperm.mem_iff.mp hp) with hstay | hleft
  · rcases List.mem_iff_getElem.mp hstay with ⟨i, hi, heq⟩
    have hi' : i < stay'.length := by
      rw [← hshifted.length_eq]
      exact hi
    refine Or.inl ⟨stay'[i], ?_, ?_⟩
    · exact hperm'.mem_iff.mpr (List.mem_append_left come (List.getElem_mem hi'))
    · rw [← heq]
      exact hshifted.get hi hi'
  · exact Or.inr (hgone p hleft)

/-- What no two workers have in common they still have not, if those who come do not have
    it. -/
theorem nodup_filterMap {α : Type} {f : String × Worker → Option α}
    (h : Restaffed Ends Brings crew crew') (hshifted : ∀ p p', Shifted Ends p p' → f p' = f p)
    (hbrings : ∀ node w, Brings node w → f (node, w) = none)
    (hnodup : (crew.filterMap f).Nodup) : (crew'.filterMap f).Nodup := by
  rcases h with ⟨stay, stay', gone, come, hperm, hperm', hstay, _, hcome⟩
  have hsame : stay'.filterMap f = stay.filterMap f := by
    clear hperm hperm'
    induction hstay with
    | nil => rfl
    | cons hp _ ih => rw [List.filterMap_cons, List.filterMap_cons, hshifted _ _ hp, ih]
  have hnew : come.filterMap f = [] :=
    List.filterMap_eq_nil_iff.mpr fun p hp => hbrings p.1 p.2 (hcome p hp)
  have hbefore := (hperm.filterMap f).nodup_iff.mp hnodup
  rw [List.filterMap_append] at hbefore
  rw [(hperm'.filterMap f).nodup_iff, List.filterMap_append, hsame, hnew, List.append_nil]
  exact (List.nodup_append.mp hbefore).1

end Restaffed

/-- Asked to stop, the workers go on for now. -/
theorem Strategy.workers_drain {ω : Type} (s : Strategy ω) : s.drain.1.workers = s.workers := by
  unfold drain workers
  cases hrunning : s.running with
  | none =>
      dsimp only
      rw [hrunning]
  | some r => rfl

/-- The name of a worker tells the index of its shard. -/
theorem processorName_injective {a b : Option Assignment} (h : processorName a = processorName b) :
    a.map (·.index) = b.map (·.index) := by
  have hname : ∀ a : Assignment, processorName (some a) =
      "Outbox event processor - " ++ a.index.toNat.repr := fun _ => rfl
  -- A name with an index is longer than the name without one.
  have hne : ∀ a : Assignment, processorName (some a) ≠ processorName none := by
    intro a heq
    have hlen := congrArg String.length heq
    rw [hname, String.length_append] at hlen
    have hprefix : "Outbox event processor - ".length = 25 := rfl
    have hnone : (processorName none).length = 22 := rfl
    omega
  cases a with
  | none =>
      cases b with
      | none => rfl
      | some b => exact absurd h.symm (hne b)
  | some a =>
      cases b with
      | none => exact absurd h (hne a)
      | some b =>
          rw [hname, hname, String.append_right_inj, Nat.repr_eq_ofList_toDigits,
            Nat.repr_eq_ofList_toDigits, String.ofList_inj] at h
          have hindex : a.index.toNat = b.index.toNat := by
            rw [← Nat.ofDigitChars_ten_toDigits (n := a.index.toNat), h,
              Nat.ofDigitChars_ten_toDigits]
          exact congrArg some (UInt32.toNat_inj.mp hindex)

theorem nodup_processorNames {s : Settings} {v : Validated} (h : s.validate = .ok v) :
    (v.assignments.map processorName).Nodup := by
  have hindices := Settings.assignments_of_validate h
  rw [List.nodup_map_iff_inj_on (List.Nodup.of_map _ hindices)]
  intro a ha b hb heq
  exact List.inj_on_of_nodup_map hindices ha hb (processorName_injective heq)

/-- A value in one place is replaced by one that a function does not tell from it. -/
theorem map_set_of_eq {α β : Type} {f : α → β} {l : List α} {i : Nat} {a b : α}
    (h : l[i]? = some a) (heq : f b = f a) : (l.set i b).map f = l.map f := by
  rcases List.getElem?_eq_some_iff.mp h with ⟨hi, rfl⟩
  rw [List.map_set, heq, ← List.map_set, List.set_getElem_self hi]

/-- The worker in one place is another one. -/
theorem Body.workers_setWorker {b : Body} {i : Nat} {w : Worker} (w' : Worker)
    (h : b.workers[i]? = some w) : (b.setWorker i w').workers = b.workers.set i w' := by
  cases b with
  | strategy s separate =>
      rcases s with ⟨settings, running⟩
      cases running with
      | none => exact nomatch h
      | some r => rfl
  | single w₀ signal =>
      cases i with
      | zero => rfl
      | succ i => exact nomatch h

theorem Cluster.closeAccess_name (host : Host) (point : UsePoint) (closesAgents : Bool) :
    (closeAccess host point closesAgents).2.name = host.name := by
  unfold closeAccess
  split <;> rfl

namespace Cluster

/-- The workers of a cluster, each with the name of its node. -/
def crew (c : Cluster) : List (String × Worker) := c.nodes.flatMap Node.crew

variable {c : Cluster} {name : String}

theorem mem_crew {p : String × Worker} :
    p ∈ c.crew ↔ ∃ node ∈ c.nodes, node.host.name = p.1 ∧ p.2 ∈ node.body.workers := by
  simp only [crew, Node.crew, List.mem_flatMap, List.mem_map, Prod.ext_iff]
  constructor
  · rintro ⟨node, hnode, w, hw, hname, rfl⟩
    exact ⟨node, hnode, hname, hw⟩
  · rintro ⟨node, hnode, hname, hw⟩
    exact ⟨node, hnode, p.2, hw, hname, rfl⟩

theorem mem_crew_of_mem {node : Node} {w : Worker} (hnode : node ∈ c.nodes)
    (hw : w ∈ node.body.workers) : (node.host.name, w) ∈ c.crew :=
  mem_crew.mpr ⟨node, hnode, rfl, hw⟩

theorem name_of_find? {node : Node} (h : c.find? name = some node) : node.host.name = name := by
  have hfound := List.find?_some h
  exact beq_iff_eq.mp hfound

namespace Event

/-- The workers that an event may bring to an end are those of this node. -/
def Ends : Event → String → Prop
  | .addStrategy host .., node | .addSingle host .., node => node = host.name
  | .stop name, node | .abort name, node | .discard name, node => node = name
  | _, _ => False

/-- The workers that come with an event. -/
def Brings (c : Cluster) : Event → String → Worker → Prop
  | .addSingle host settings agent configured, node, w =>
    node = host.name ∧ ∃ v, settings.validate = .ok v ∧
      w = Worker.ofSettings v agent configured c.now
  | .start name, node, w =>
    node = name ∧ ∃ n ∈ c.nodes, n.host.name = name ∧ ∃ s separate v a,
      n.body = .strategy s separate ∧ s.running.isSome = false ∧ s.settings.validate = .ok v ∧
      a ∈ v.assignments ∧
      w = { Worker.ofSettings v (processorName a) a c.now with wait := .launched }
  | _, _, _ => False

/-- Who comes has not begun. -/
theorem Brings.fresh {c : Cluster} {e : Event} {node : String} {w : Worker}
    (h : e.Brings c node w) : (w.wait = .held ∨ w.wait = .launched) ∧
      ∃ (settings : Settings) (v : Validated) (name : String) (configured : Option Assignment),
        settings.validate = .ok v ∧
        w = { Worker.ofSettings v name configured c.now with wait := w.wait } := by
  cases e with
  | addSingle host settings agent configured =>
      rcases h with ⟨_, v, hvalid, rfl⟩
      exact ⟨Or.inl rfl, settings, v, agent, configured, hvalid, rfl⟩
  | start name =>
      rcases h with ⟨_, n, _, _, s, separate, v, a, _, _, hvalid, _, rfl⟩
      exact ⟨Or.inr rfl, s.settings, v, processorName a, a, hvalid, rfl⟩
  | _ => exact h.elim

/-- What an event makes of the agents, apart from turns. -/
def agents : Event → AgentTable → AgentTable
  | .putAgent row, t => t.insert row
  | .deleteAgents ids, t => t.delete ids
  | _, t => t

/-- What an event makes of the outbox, apart from turns. -/
def outbox : Event → Outbox → Outbox
  | .enqueue keys, t => keys.foldl (fun t key => t.enqueue key []) t
  | .deleteEvents ids, t => t.delete ids
  | _, t => t

end Event

/-- No two nodes have one name, and no two workers of a node. -/
structure Distinct (c : Cluster) : Prop where
  nodes : (c.nodes.map (·.host.name)).Nodup
  workers : ∀ node ∈ c.nodes, (node.body.workers.map Worker.name).Nodup

/-- The node of a name. -/
theorem Distinct.eq_of_find? (h : c.Distinct) {node n : Node} (hfind : c.find? name = some node)
    (hn : n ∈ c.nodes) (hname : n.host.name = name) : n = node := by
  exact List.inj_on_of_nodup_map h.nodes hn (List.mem_of_find?_eq_some hfind)
    (hname.trans (name_of_find? hfind).symm)

/-- No two workers are known by the same. -/
theorem Distinct.posts (h : c.Distinct) : (c.crew.map post).Nodup := by
  have hnodes := h.nodes
  have hworkers := h.workers
  unfold crew
  generalize c.nodes = nodes at hnodes hworkers ⊢
  induction nodes with
  | nil => exact List.nodup_nil
  | cons n nodes ih =>
      rw [List.map_cons, List.nodup_cons] at hnodes
      rw [List.flatMap_cons, List.map_append, List.nodup_append]
      refine ⟨?_, ih hnodes.2 (fun n' hn' => hworkers n' (List.mem_cons_of_mem n hn')), ?_⟩
      · have hnames := hworkers n List.mem_cons_self
        rw [Node.crew, List.map_map]
        rw [show post ∘ (fun w => (n.host.name, w)) = Prod.mk n.host.name ∘ Worker.name from rfl,
          ← List.map_map]
        exact hnames.map fun _ _ heq => (Prod.mk.inj heq).2
      · -- Workers of two nodes differ in the name of the node.
        rintro a ha b hb rfl
        rcases List.mem_map.mp ha with ⟨p, hp, rfl⟩
        rcases List.mem_map.mp hb with ⟨q, hq, heq⟩
        rcases List.mem_map.mp hp with ⟨w, _, rfl⟩
        rcases List.mem_flatMap.mp hq with ⟨n', hn', hq⟩
        rcases List.mem_map.mp hq with ⟨w', _, rfl⟩
        refine hnodes.1 (List.mem_map.mpr ⟨n', hn', ?_⟩)
        exact (Prod.mk.inj heq).1

/-- Nodes are added or changed, and workers come and go with them. -/
structure Regrouped (Ends : String → Prop) (Brings : String → Worker → Prop) (c c' : Cluster) :
    Prop where
  distinct : c'.Distinct
  crew : Restaffed Ends Brings c.crew c'.crew
  now_eq : c'.now = c.now
  epoch_eq : c'.epoch = c.epoch
  agents_eq : c'.agents = c.agents
  outbox_eq : c'.outbox = c.outbox
  journal : ∃ ns, c'.journal = c.journal.addNotices ns

namespace Regrouped

variable {Ends : String → Prop} {Brings : String → Worker → Prop}

theorem refl (h : c.Distinct) : Regrouped Ends Brings c c :=
  ⟨h, Restaffed.refl _, rfl, rfl, rfl, rfl, [], rfl⟩

/-- The nodes of one name are changed, and something is reported. -/
theorem modifyNode (h : c.Distinct) {change : Node → Node} (ns : List Notice)
    (hname : ∀ n ∈ c.nodes, n.host.name = name → (change n).host.name = name)
    (hworkers : ∀ n ∈ c.nodes, n.host.name = name →
      ((change n).body.workers.map Worker.name).Nodup)
    (hcrew : ∀ n ∈ c.nodes, n.host.name = name → Restaffed Ends Brings n.crew (change n).crew) :
    Regrouped Ends Brings c ((c.modifyNode name change).report ns) where
  distinct := by
    refine ⟨?_, fun node hnode => ?_⟩
    -- No node changes its name, so the names are still distinct.
    · have hmap : ((c.modifyNode name change).report ns).nodes.map (·.host.name) =
          c.nodes.map (·.host.name) := by
        show (c.nodes.map _).map _ = _
        rw [List.map_map]
        refine List.map_congr_left (fun n hn => ?_)
        dsimp only [Function.comp_apply]
        split
        · rename_i heq
          exact (hname n hn heq).trans heq.symm
        · rfl
      rw [hmap]
      exact h.nodes
    · rcases List.mem_map.mp hnode with ⟨n, hn, rfl⟩
      by_cases heq : n.host.name = name
      · rw [if_pos heq]
        exact hworkers n hn heq
      · rw [if_neg heq]
        exact h.workers n hn
  crew := by
    show Restaffed Ends Brings (c.nodes.flatMap Node.crew) ((c.nodes.map _).flatMap Node.crew)
    rw [List.flatMap_map]
    refine Restaffed.flatMap (fun n hn => ?_)
    by_cases heq : n.host.name = name
    · rw [if_pos heq]
      exact hcrew n hn heq
    · rw [if_neg heq]
      exact Restaffed.refl _
  now_eq := rfl
  epoch_eq := rfl
  agents_eq := rfl
  outbox_eq := rfl
  journal := ⟨ns, rfl⟩

/-- The nodes of one name are changed, but not their workers. -/
theorem sameWorkers (h : c.Distinct) {change : Node → Node} (ns : List Notice)
    (hname : ∀ n ∈ c.nodes, n.host.name = name → (change n).host.name = name)
    (hsame : ∀ n ∈ c.nodes, n.host.name = name → (change n).body.workers = n.body.workers) :
    Regrouped Ends Brings c ((c.modifyNode name change).report ns) := by
  refine modifyNode h ns hname (fun n hn heq => ?_) (fun n hn heq => ?_)
  · rw [hsame n hn heq]
    exact h.workers n hn
  · rw [Node.crew, Node.crew, hsame n hn heq, hname n hn heq, heq]
    exact Restaffed.refl _

theorem addNode (h : c.Distinct) {node : Node} (hends : Ends node.host.name)
    (hnames : (node.body.workers.map Worker.name).Nodup)
    (hbrings : ∀ w ∈ node.body.workers, Brings node.host.name w) :
    Regrouped Ends Brings c (c.addNode node) where
  distinct := by
    refine ⟨?_, fun n hn => ?_⟩
    · show ((c.nodes.filter _ ++ [node]).map _).Nodup
      rw [List.map_append, List.nodup_append]
      refine ⟨(List.filter_sublist.map _).nodup h.nodes, List.nodup_singleton _, ?_⟩
      rintro a ha b hb rfl
      rcases List.mem_map.mp ha with ⟨n, hn, heq⟩
      rw [List.map_cons, List.map_nil, List.mem_singleton] at hb
      have hne := (List.mem_filter.mp hn).2
      exact (bne_iff_ne.mp hne) (heq.trans hb)
    · rcases List.mem_append.mp hn with hbefore | hnew
      · exact h.workers n (List.mem_filter.mp hbefore).1
      · rw [List.mem_singleton.mp hnew]
        exact hnames
  crew := by
    -- As a condition on each node the filter leaves the list in step with what it was.
    have hkept : (c.nodes.filter (·.host.name != node.host.name)).flatMap Node.crew =
        c.nodes.flatMap fun n => if n.host.name != node.host.name then n.crew else [] := by
      induction c.nodes with
      | nil => rfl
      | cons n nodes ih =>
          rw [List.filter_cons, List.flatMap_cons, ← ih]
          split <;> rfl
    show Restaffed Ends Brings (c.nodes.flatMap Node.crew) ((c.nodes.filter _ ++ [node]).flatMap _)
    rw [List.flatMap_append, hkept, ← List.append_nil (c.nodes.flatMap Node.crew)]
    refine (Restaffed.flatMap (fun n _ => ?_)).append (Restaffed.replaced ?_ ?_)
    · by_cases hname : n.host.name = node.host.name
      · rw [if_neg (by rw [hname, bne_self_eq_false]; exact Bool.false_ne_true)]
        refine Restaffed.replaced (fun p hp => ?_) (fun _ hp => absurd hp List.not_mem_nil)
        rcases List.mem_map.mp hp with ⟨w, _, rfl⟩
        show Ends n.host.name
        rw [hname]
        exact hends
      · rw [if_pos (bne_iff_ne.mpr hname)]
        exact Restaffed.refl _
    · exact fun _ hp => absurd hp List.not_mem_nil
    · intro p hp
      rw [List.flatMap_cons, List.flatMap_nil, List.append_nil] at hp
      rcases List.mem_map.mp hp with ⟨w, hw, rfl⟩
      exact hbrings w hw
  now_eq := rfl
  epoch_eq := rfl
  agents_eq := rfl
  outbox_eq := rfl
  journal := ⟨[], rfl⟩

/-- The single worker of a node is started or comes to its end, or stays as it is. -/
theorem modifySingle (h : c.Distinct) {change : Worker → Signal → Worker × Signal}
    (hchange : ∀ w signal, Shifted Ends (name, w) (name, (change w signal).1)) :
    Regrouped Ends Brings c (c.modifySingle name change) := by
  refine modifyNode h [] (fun n _ heq => ?_) (fun n hn _ => ?_) (fun n _ heq => ?_)
  · dsimp only
    split <;> exact heq
  · have hbefore := h.workers n hn
    cases hbody : n.body with
    | strategy s separate =>
        dsimp only
        rw [hbody]
        rw [hbody] at hbefore
        exact hbefore
    | single w signal => exact List.nodup_singleton _
  · cases hbody : n.body with
    | strategy s separate => exact Restaffed.refl _
    | single w signal =>
        refine Restaffed.of_shifted ?_
        rw [Node.crew, Node.crew, hbody, heq]
        exact List.Forall₂.cons (hchange w signal) List.Forall₂.nil

/-- A node that starts has had no workers. -/
theorem start (h : c.Distinct) (name : String) :
    Regrouped (Event.Ends (.start name)) (Event.Brings c (.start name)) c (c.start name).2 := by
  unfold Cluster.start
  cases hfind : c.find? name with
  | none => exact refl h
  | some node =>
      dsimp only
      cases hbody : node.body with
      | strategy s separate =>
          dsimp only
          generalize hmake : (fun v a =>
            ({ Worker.ofSettings v (processorName a) a c.now with
              wait := .launched } : Worker)) = make
          have hworkers : ∀ n ∈ c.nodes, n.host.name = name → n.body.workers = s.workers := by
            intro n hn hname
            rw [h.eq_of_find? hfind hn hname, hbody]
            rfl
          -- Either nothing has been started, or nobody was there and everybody is new.
          rcases s.start_cases make with heq | ⟨hrunning, v, hvalid, hmade⟩
          · refine sameWorkers h _ (fun _ _ heq => heq) (fun n hn hname => ?_)
            rw [hworkers n hn hname]
            show (s.start make).strategy.workers = _
            rw [heq]
          · have hnobody : s.workers = [] := by
              unfold Strategy.workers
              cases hr : s.running with
              | none => rfl
              | some r =>
                  rw [hr] at hrunning
                  exact nomatch hrunning
            refine modifyNode h _ (fun _ _ heq => heq) (fun n _ _ => ?_) (fun n hn hname => ?_)
            · show ((s.start make).strategy.workers.map Worker.name).Nodup
              rw [hmade, List.map_map, ← hmake]
              exact nodup_processorNames hvalid
            · rw [Node.crew, hworkers n hn hname, hnobody]
              refine Restaffed.replaced (fun _ hp => absurd hp List.not_mem_nil) (fun p hp => ?_)
              rcases List.mem_map.mp hp with ⟨w, hw, rfl⟩
              have hw : w ∈ (s.start make).strategy.workers := hw
              rw [hmade] at hw
              rcases List.mem_map.mp hw with ⟨a, ha, rfl⟩
              refine ⟨hname, node, List.mem_of_find?_eq_some hfind, ?_, s, separate, v, a, hbody,
                hrunning, hvalid, ha, ?_⟩
              · exact name_of_find? hfind
              · rw [← hmake]
      | single w signal =>
          refine modifyNode h [] (fun _ _ heq => heq) (fun _ _ _ => List.nodup_singleton _)
            (fun n hn hname => ?_)
          rw [h.eq_of_find? hfind hn hname]
          refine Restaffed.of_shifted ?_
          rw [Node.crew, Node.crew, hbody]
          refine List.Forall₂.cons ?_ List.Forall₂.nil
          show Shifted _ (node.host.name, w) (node.host.name, if w.wait = .held then _ else w)
          by_cases hheld : w.wait = .held
          · rw [if_pos hheld]
            exact Shifted.started hheld
          · rw [if_neg hheld]
            exact Shifted.same _

theorem drain (h : c.Distinct) (name : String) : Regrouped Ends Brings c (c.drain name) := by
  unfold Cluster.drain
  cases hfind : c.find? name with
  | none => exact refl h
  | some node =>
      rcases node with ⟨host, body, totalCount⟩
      cases body with
      | single w signal => exact refl h
      | strategy s separate =>
          refine sameWorkers h _ (fun _ _ heq => heq) (fun n hn hname => ?_)
          rw [h.eq_of_find? hfind hn hname]
          exact s.workers_drain

/-- All workers of a node that stops are gone. -/
theorem stop (h : c.Distinct) (name : String) :
    Regrouped (Event.Ends (.stop name)) Brings c (c.stop name).2 := by
  unfold Cluster.stop
  cases hfind : c.find? name with
  | none => exact refl h
  | some node =>
      have hname := name_of_find? hfind
      rcases node with ⟨host, body, totalCount⟩
      cases body with
      | single w signal => exact refl h
      | strategy s separate =>
          refine modifyNode h _ (fun n hn heq => ?_) (fun _ _ _ => List.nodup_nil)
            (fun n _ heq => ?_)
          · exact (closeAccess_name _ _ _).trans ((closeAccess_name _ _ _).trans hname)
          · refine Restaffed.replaced (fun p hp => ?_) (fun _ hp => absurd hp List.not_mem_nil)
            rcases List.mem_map.mp hp with ⟨w, _, rfl⟩
            exact heq

end Regrouped

/-- What becomes of a cluster by an event that is no turn. -/
structure Outside (e : Event) (c c' : Cluster) : Prop where
  distinct : c'.Distinct
  crew : Restaffed e.Ends (e.Brings c) c.crew c'.crew
  now_cases : c'.now = c.now ∨ c.isQuiet = true ∧ c'.now = c.now + 1
  epoch_eq : c'.epoch = c.epoch
  agents_eq : c'.agents = e.agents c.agents
  outbox_eq : c'.outbox = e.outbox c.outbox
  journal : ∃ ns, c'.journal = c.journal.addNotices ns

theorem Regrouped.outside {e : Event} {c' : Cluster}
    (h : Regrouped e.Ends (e.Brings c) c c') (hagents : e.agents c.agents = c.agents)
    (houtbox : e.outbox c.outbox = c.outbox) : Outside e c c' :=
  ⟨h.distinct, h.crew, Or.inl h.now_eq, h.epoch_eq, h.agents_eq.trans hagents.symm,
    h.outbox_eq.trans houtbox.symm, h.journal⟩

theorem outside_step (h : c.Distinct) {e : Event} (hturn : ∀ n i skip, e ≠ .turn n i skip) :
    Outside e c (c.perform e).2 := by
  cases e with
  | addStrategy host settings separate =>
      refine Regrouped.outside ?_ rfl rfl
      dsimp only [perform, Cluster.addStrategy]
      refine Regrouped.addNode h rfl ?_ ?_
      · exact List.nodup_nil
      · exact fun _ hw => absurd hw List.not_mem_nil
  | addSingle host settings agent configured =>
      dsimp only [perform, Cluster.addSingle]
      cases hvalid : settings.validate with
      | error e => exact (Regrouped.refl h).outside rfl rfl
      | ok v =>
          refine Regrouped.outside ?_ rfl rfl
          refine Regrouped.addNode h rfl ?_ (fun w hw => ?_)
          · exact List.nodup_singleton _
          · exact ⟨rfl, v, hvalid, List.mem_singleton.mp hw⟩
  | start node => exact (Regrouped.start h node).outside rfl rfl
  | drain node => exact (Regrouped.drain h node).outside rfl rfl
  | stop node => exact (Regrouped.stop h node).outside rfl rfl
  | send node raised =>
      refine Regrouped.outside ?_ rfl rfl
      dsimp only [perform, send]
      exact Regrouped.modifySingle h fun _ _ => Shifted.same _
  | dropSignal node =>
      refine Regrouped.outside ?_ rfl rfl
      dsimp only [perform, dropSignal]
      exact Regrouped.modifySingle h fun _ _ => Shifted.same _
  | abort node =>
      refine Regrouped.outside ?_ rfl rfl
      dsimp only [perform, Cluster.abort]
      refine Regrouped.modifySingle h fun w _ => ?_
      show Shifted _ (node, w) (node, w.abort)
      unfold Worker.abort
      split
      · exact Shifted.same _
      · exact Shifted.same _
      · exact Shifted.ended rfl
  | discard node =>
      refine Regrouped.outside ?_ rfl rfl
      dsimp only [perform, Cluster.discard]
      refine Regrouped.modifySingle h fun w _ => ?_
      show Shifted _ (node, w) (node, w.discard)
      unfold Worker.discard
      split
      · exact Shifted.ended rfl
      · exact Shifted.same _
  | moveWall node ms =>
      refine Regrouped.outside ?_ rfl rfl
      exact Regrouped.sameWorkers h [] (fun _ _ heq => heq) (fun _ _ _ => rfl)
  | arm node point times error =>
      refine Regrouped.outside ?_ rfl rfl
      exact Regrouped.sameWorkers h [] (fun _ _ heq => heq) (fun _ _ _ => rfl)
  | slow node point ms =>
      refine Regrouped.outside ?_ rfl rfl
      exact Regrouped.sameWorkers h [] (fun _ _ heq => heq) (fun _ _ _ => rfl)
  | turn n i skip => exact absurd rfl (hturn n i skip)
  -- Only a tick moves the clock, and only when nobody is due.
  | tick =>
      dsimp only [perform]
      by_cases hquiet : c.isQuiet = true
      · rw [if_pos hquiet]
        exact ⟨⟨h.nodes, h.workers⟩, Restaffed.refl _, Or.inr ⟨hquiet, rfl⟩, rfl, rfl, rfl, [], rfl⟩
      · rw [if_neg hquiet]
        exact (Regrouped.refl h).outside rfl rfl
  | enqueue keys =>
      exact ⟨⟨h.nodes, h.workers⟩, Restaffed.refl _, Or.inl rfl, rfl, rfl, rfl, [], rfl⟩
  | deleteEvents ids =>
      exact ⟨⟨h.nodes, h.workers⟩, Restaffed.refl _, Or.inl rfl, rfl, rfl, rfl, [], rfl⟩
  | putAgent row =>
      exact ⟨⟨h.nodes, h.workers⟩, Restaffed.refl _, Or.inl rfl, rfl, rfl, rfl, [], rfl⟩
  | deleteAgents ids =>
      exact ⟨⟨h.nodes, h.workers⟩, Restaffed.refl _, Or.inl rfl, rfl, rfl, rfl, [], rfl⟩

/-- What becomes of a cluster by the turn of a worker, which leads to the scene `s`. -/
structure Turned (bound : Nat) (c c' : Cluster) (node : Node) (worker : Worker) (skip : Nat)
    (others : List (String × Worker)) : Prop where
  node_mem : node ∈ c.nodes
  worker_mem : worker ∈ node.body.workers
  settles : (c.scene node worker skip).Settles bound (c.scene node worker skip).resume
  node_after : ∃ node' ∈ c'.nodes, node'.host = (c.scene node worker skip).resume.host ∧
    (c.scene node worker skip).resume.worker ∈ node'.body.workers
  distinct : c'.Distinct
  crew_before : c.crew.Perm ((node.host.name, worker) :: others)
  crew_after : c'.crew.Perm
    ((node.host.name, (c.scene node worker skip).resume.worker) :: others)
  now_eq : c'.now = c.now
  epoch_eq : c'.epoch = c.epoch
  agents_eq : c'.agents = (c.scene node worker skip).resume.agents
  outbox_eq : c'.outbox = (c.scene node worker skip).resume.outbox
  journal_eq : c'.journal = (c.scene node worker skip).resume.journal

/-- The turn of a worker changes that one. -/
theorem turned_of_getElem? {bound : Nat} (h : c.Distinct) (hcustody : c.Custody bound)
    (hopens : c.OpensWithin bound) {n i : Nat} {node : Node} {worker : Worker}
    (hnode : c.nodes[n]? = some node) (hworker : node.body.workers[i]? = some worker)
    (skip : Nat) : ∃ others, Turned bound c (c.resumeWorker n i skip) node worker skip others := by
  unfold resumeWorker
  rw [hnode]
  dsimp only
  rw [hworker]
  have hmem := List.mem_of_getElem? hnode
  have hwmem := List.mem_of_getElem? hworker
  have hsettles := Scene.resume_settles (s := c.scene node worker skip)
    hcustody.lawful (hcustody.sound node hmem worker hwmem) (hopens node hmem)
  dsimp only
  generalize hs : (c.scene node worker skip).resume = s at hsettles ⊢
  have hname : s.host.name = node.host.name := hsettles.follows.node_eq
  have hwname : s.worker.name = worker.name := hsettles.follows.worker_eq
  have hworkers := Body.workers_setWorker s.worker hworker
  -- The node after the turn differs in one worker.
  generalize hafter : ({ node with
    host := s.host, body := node.body.setWorker i s.worker } : Node) = node'
  have hcrew' : node'.crew = (node.body.workers.set i s.worker).map
      fun w => (node.host.name, w) := by
    rw [← hafter, Node.crew, hworkers, hname]
  rcases List.getElem?_eq_some_iff.mp hnode with ⟨hn, hnode'⟩
  rcases List.getElem?_eq_some_iff.mp hworker with ⟨hi, hworker'⟩
  have hnodes : c.nodes.Perm (node :: c.nodes.eraseIdx n) := by
    have hperm := (List.getElem_cons_eraseIdx_perm hn).symm
    rw [hnode'] at hperm
    exact hperm
  have hcrew : node.body.workers.Perm (worker :: node.body.workers.eraseIdx i) := by
    have hperm := (List.getElem_cons_eraseIdx_perm hi).symm
    rw [hworker'] at hperm
    exact hperm
  refine ⟨(node.body.workers.eraseIdx i).map (fun w => (node.host.name, w)) ++
    (c.nodes.eraseIdx n).flatMap Node.crew, hmem, hwmem, hs ▸ hsettles, ?_, ⟨?_, ?_⟩, ?_,
    ?_, rfl, rfl, by rw [hs], by rw [hs], by rw [hs]⟩
  · refine ⟨node', List.mem_set hn node', ?_, ?_⟩
    · rw [hs, ← hafter]
    · rw [hs, ← hafter, hworkers]
      exact List.mem_set hi s.worker
  · show ((c.nodes.set n node').map _).Nodup
    rw [map_set_of_eq hnode (show node'.host.name = node.host.name by rw [← hafter, hname])]
    exact h.nodes
  · intro n' hn'
    rcases List.mem_or_eq_of_mem_set hn' with hbefore | rfl
    · exact h.workers n' hbefore
    · rw [← hafter, hworkers, map_set_of_eq hworker hwname]
      exact h.workers node hmem
  · refine (hnodes.flatMap_right Node.crew).trans ?_
    rw [List.flatMap_cons, ← List.cons_append]
    exact (hcrew.map _).append_right _
  · rw [hs]
    refine ((List.set_perm_cons_eraseIdx hn node').flatMap_right Node.crew).trans ?_
    rw [List.flatMap_cons, ← List.cons_append, hcrew']
    exact ((List.set_perm_cons_eraseIdx hi s.worker).map _).append_right _

/-- A turn changes one worker, or nothing. -/
theorem turn_cases {bound : Nat} (h : c.Distinct) (hcustody : c.Custody bound)
    (hopens : c.OpensWithin bound) (n i skip : Nat) :
    c.resumeWorker n i skip = c ∨
    ∃ node worker others, Turned bound c (c.resumeWorker n i skip) node worker skip others := by
  cases hnode : c.nodes[n]? with
  | none => exact Or.inl (by simp only [resumeWorker, hnode])
  | some node =>
      cases hworker : node.body.workers[i]? with
      | none => exact Or.inl (by simp only [resumeWorker, hnode, hworker])
      | some worker =>
          exact Or.inr ⟨node, worker, turned_of_getElem? h hcustody hopens hnode hworker skip⟩

/-- Who is due is there, and goes on by now. -/
theorem exists_due_of_isDue {n i : Nat} (hdue : c.isDue n i = true) :
    ∃ node worker due, c.nodes[n]? = some node ∧ node.body.workers[i]? = some worker ∧
      worker.dueAt node.body.signal = some due ∧ due ≤ c.now := by
  rcases List.any_eq_true.mp hdue with ⟨t, ht, hdue⟩
  simp only [Bool.and_eq_true, beq_iff_eq, decide_eq_true_iff] at hdue
  rcases hdue with ⟨⟨rfl, rfl⟩, hle⟩
  rcases List.mem_flatMap.mp ht with ⟨⟨node, n⟩, hnode, ht⟩
  rcases List.mem_filterMap.mp ht with ⟨⟨worker, i⟩, hworker, ht⟩
  rcases Option.map_eq_some_iff.mp ht with ⟨due, hdueAt, rfl⟩
  exact ⟨node, worker, due, List.mem_zipIdx_iff_getElem?.mp hnode,
    List.mem_zipIdx_iff_getElem?.mp hworker, hdueAt, Nat.le_trans (Nat.le_max_right _ _) hle⟩

/-- An event is no turn, or a turn that does not happen, or the turn of a worker. -/
theorem perform_cases {bound : Nat} (h : c.Distinct) (hcustody : c.Custody bound)
    (hopens : c.OpensWithin bound) (e : Event) :
    (∀ n i skip, e ≠ .turn n i skip) ∨
    (∃ n i skip, e = .turn n i skip ∧ (c.perform e).2 = c) ∨
    ∃ node worker skip others, Turned bound c (c.perform e).2 node worker skip others := by
  cases e with
  | turn n i skip =>
      refine Or.inr ?_
      dsimp only [perform]
      by_cases hdue : c.isDue n i = true
      · rw [if_pos hdue]
        rcases turn_cases h hcustody hopens n i skip with heq | ⟨node, worker, others, hturned⟩
        · exact Or.inl ⟨n, i, skip, rfl, heq⟩
        · exact Or.inr ⟨node, worker, skip, others, hturned⟩
      · rw [if_neg hdue]
        exact Or.inl ⟨n, i, skip, rfl, rfl⟩
  | _ => exact Or.inl fun _ _ _ => Event.noConfusion

/-- Every event is a turn of one worker, which goes on by now, or it lets workers come and
    go. -/
theorem due_cases {bound : Nat} (h : c.Distinct) (hcustody : c.Custody bound)
    (hopens : c.OpensWithin bound) (e : Event) :
    Outside e c (c.perform e).2 ∨
    ∃ node worker skip others, Turned bound c (c.perform e).2 node worker skip others ∧
      ∃ due, worker.dueAt node.body.signal = some due ∧ due ≤ c.now := by
  cases e with
  | turn n i skip =>
      dsimp only [perform]
      by_cases hdue : c.isDue n i = true
      · rw [if_pos hdue]
        rcases exists_due_of_isDue hdue with ⟨node, worker, due, hnode, hworker, hdueAt, hle⟩
        rcases turned_of_getElem? h hcustody hopens hnode hworker skip with ⟨others, hturned⟩
        exact Or.inr ⟨node, worker, skip, others, hturned, due, hdueAt, hle⟩
      · rw [if_neg hdue]
        exact Or.inl ((Regrouped.refl h).outside rfl rfl)
  | _ => exact Or.inl (outside_step h fun _ _ _ => Event.noConfusion)

/-- Every event is a turn of one worker, or it lets workers come and go. -/
theorem step_cases {bound : Nat} (h : c.Distinct) (hcustody : c.Custody bound)
    (hopens : c.OpensWithin bound) (e : Event) :
    Outside e c (c.perform e).2 ∨
    ∃ node worker skip others, Turned bound c (c.perform e).2 node worker skip others := by
  rcases due_cases h hcustody hopens e with hout | ⟨node, worker, skip, others, hturned, _⟩
  · exact Or.inl hout
  · exact Or.inr ⟨node, worker, skip, others, hturned⟩

theorem distinct_init (epoch : Int) (agents : AgentTable) (outbox : Outbox) :
    ({ epoch, agents, outbox } : Cluster).Distinct :=
  ⟨List.nodup_nil, fun _ h => absurd h List.not_mem_nil⟩

theorem distinct_step {bound : Nat} (h : c.Distinct) (hcustody : c.Custody bound)
    (hopens : c.OpensWithin bound) (e : Event) : (c.perform e).2.Distinct := by
  rcases step_cases h hcustody hopens e with hout | ⟨node, worker, skip, others, hturned⟩
  · exact hout.distinct
  · exact hturned.distinct

theorem distinct_run {bound : Nat} {events : List Event} (h : c.Distinct)
    (hcustody : c.Custody bound) (hopens : Always (OpensWithin bound) c events) :
    (c.run events).Distinct := by
  induction events generalizing c with
  | nil => exact h
  | cons e events ih =>
      exact ih (distinct_step h hcustody hopens.1 e) (custody_step hcustody hopens.1 e) hopens.2

end Cluster

end OutboxCluster
