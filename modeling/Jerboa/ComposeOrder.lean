import Jerboa.DependencyOrder
import Mathlib.Data.List.Sort
import Mathlib.Data.String.Basic

/-!
# The start order of compose services

`TopologicalSort` counts the dependencies of every service, keeps the services
without an open dependency in a sorted queue and takes the first of them until
the queue is empty.  Go ranges over a map in any order; the orders of the two
ranges that matter are arguments here.
-/

namespace Jerboa.Compose

open DependencyOrder List Function

/-- The services of a compose file, each with its `depends_on`.  The names are
the keys of a map. -/
structure Services (Name : Type*) where
  entries : List (Name × List Name)
  nodup : (entries.map Prod.fst).Nodup

variable {Name : Type*}

namespace Services

def names (services : Services Name) : List Name :=
  services.entries.map Prod.fst

def DependsOn (services : Services Name) (name dep : Name) : Prop :=
  ∃ dependsOn, (name, dependsOn) ∈ services.entries ∧ dep ∈ dependsOn

/-- Every name under `depends_on` is a service, as `validate` checks. -/
def Defined (services : Services Name) : Prop :=
  ∀ service ∈ services.entries, ∀ dep ∈ service.2, dep ∈ services.names

theorem names_nodup (services : Services Name) : services.names.Nodup :=
  services.nodup

theorem length_names (services : Services Name) :
    services.names.length = services.entries.length :=
  length_map ..

theorem mem_names_of_dependsOn {services : Services Name} {name dep : Name}
    (dependsOn : services.DependsOn name dep) : name ∈ services.names := by
  obtain ⟨deps, member, -⟩ := dependsOn
  exact mem_map.mpr ⟨_, member, rfl⟩

end Services

variable [LinearOrder Name]

structure Edges (Name : Type*) where
  inDegree : Name → Int
  dependents : Name → List Name

def Edges.add (name : Name) (edges : Edges Name) (dep : Name) : Edges Name where
  dependents := update edges.dependents dep (edges.dependents dep ++ [name])
  inDegree := update edges.inDegree name (edges.inDegree name + 1)

def Edges.addService (edges : Edges Name) (service : Name × List Name) : Edges Name :=
  service.2.foldl (Edges.add service.1) edges

def Edges.build (range : List (Name × List Name)) : Edges Name :=
  range.foldl Edges.addService ⟨fun _ => 0, fun _ => []⟩

structure Sorting (Name : Type*) where
  inDegree : Name → Int
  queue : List Name
  order : List Name

def Sorting.release (sorting : Sorting Name) (dep : Name) : Sorting Name :=
  let inDegree := update sorting.inDegree dep (sorting.inDegree dep - 1)
  { sorting with
    inDegree
    queue := if inDegree dep = 0 then sorting.queue ++ [dep] else sorting.queue }

def sortStrings (names : List Name) : List Name :=
  names.insertionSort (· ≤ ·)

theorem sortStrings_perm (names : List Name) : (sortStrings names).Perm names :=
  perm_insertionSort _ names

theorem sortStrings_pairwise (names : List Name) : (sortStrings names).Pairwise (· ≤ ·) :=
  pairwise_insertionSort _ names

/-- The main loop, for at most `turns` turns; without a result when more are
needed. -/
def placeServices (dependents : Name → List Name) : Nat → Sorting Name → Option (List Name)
  | _, ⟨_, [], order⟩ => some order
  | 0, ⟨_, _ :: _, _⟩ => none
  | turns + 1, ⟨inDegree, n :: queue, order⟩ =>
    let released := (sortStrings (dependents n)).foldl Sorting.release
      ⟨inDegree, queue, order ++ [n]⟩
    placeServices dependents turns { released with queue := sortStrings released.queue }

/-- `TopologicalSort`.  The second loop meets the services in the order
`range`, the third loop meets the names in the order `keys`. -/
def topologicalSort (services : Services Name) (range : List (Name × List Name))
    (keys : List Name) : Option (Except String (List Name)) :=
  let edges := Edges.build range
  let queue := sortStrings (keys.filter fun name => edges.inDegree name = 0)
  (placeServices edges.dependents services.entries.length ⟨edges.inDegree, queue, []⟩).map
    fun order =>
      if order.length ≠ services.entries.length then
        .error "compose: dependency cycle detected"
      else
        .ok order

/-! ## The two maps -/

def listed (range : List (Name × List Name)) (name : Name) : List Name :=
  range.flatMap fun service => if service.1 = name then service.2 else []

variable {range : List (Name × List Name)} {services : Services Name}

theorem mem_listed (met : range.Perm services.entries) (name dep : Name) :
    dep ∈ listed range name ↔ services.DependsOn name dep := by
  simp only [listed, mem_flatMap, Services.DependsOn]
  constructor
  · rintro ⟨⟨key, dependsOn⟩, member, inside⟩
    by_cases same : key = name
    · subst same
      exact ⟨dependsOn, met.mem_iff.mp member, by simpa using inside⟩
    · simp [same] at inside
  · rintro ⟨dependsOn, member, inside⟩
    exact ⟨(name, dependsOn), met.mem_iff.mpr member, by simpa using inside⟩

/-- The two maps count the dependencies `deps`. -/
structure Edges.Counts (edges : Edges Name) (deps : Name → List Name) : Prop where
  inDegree : ∀ name, edges.inDegree name = (deps name).length
  dependents : ∀ name dep, (edges.dependents dep).count name = (deps name).count dep

variable {edges : Edges Name} {deps : Name → List Name}

theorem Edges.Counts.add (counts : edges.Counts deps) (name dep : Name) :
    (edges.add name dep).Counts (update deps name (deps name ++ [dep])) where
  inDegree other := by
    by_cases same : other = name
    · subst same
      simp [Edges.add, counts.inDegree]
    · simp [Edges.add, same, counts.inDegree]
  dependents other target := by
    have before := counts.dependents other target
    by_cases same : other = name <;> by_cases here : target = dep
    · subst same here
      simp [Edges.add, before]
    · subst same
      simp [Edges.add, here, before, Ne.symm here]
    · subst here
      simp [Edges.add, same, before, Ne.symm same]
    · simp [Edges.add, same, here, before]

theorem Edges.Counts.addService (counts : edges.Counts deps) (service : Name × List Name) :
    (edges.addService service).Counts
      fun name => deps name ++ if service.1 = name then service.2 else [] := by
  obtain ⟨name, dependsOn⟩ := service
  rw [Edges.addService]
  induction dependsOn generalizing edges deps with
  | nil => simpa using counts
  | cons dep rest ih =>
    have later := ih (counts.add name dep)
    have all : (fun other => update deps name (deps name ++ [dep]) other ++
        if name = other then rest else []) =
          fun other => deps other ++ if name = other then dep :: rest else [] := by
      funext other
      by_cases same : other = name
      · subst same
        simp
      · simp [same, Ne.symm same]
    exact all ▸ later

theorem Edges.counts_build (range : List (Name × List Name)) :
    (Edges.build range).Counts (listed range) := by
  induction range using List.reverseRecOn with
  | nil => exact ⟨fun _ => rfl, fun _ _ => rfl⟩
  | append_singleton range service ih =>
    have all : listed (range ++ [service]) =
        fun name => listed range name ++ if service.1 = name then service.2 else [] := by
      funext name
      simp [listed]
    rw [all, Edges.build, foldl_append]
    exact ih.addService service

/-! ## One turn of the main loop -/

/-- The loop over the dependents of the service just placed: every in-degree
falls by the number of times the name occurs, and the names that reach zero
are queued once each. -/
theorem Sorting.foldl_release (dependents : List Name) (sorting : Sorting Name)
    (bounded : ∀ name, (dependents.count name : Int) ≤ sorting.inDegree name) :
    ∃ released : List Name,
      dependents.foldl Sorting.release sorting =
          ⟨fun name => sorting.inDegree name - dependents.count name,
            sorting.queue ++ released, sorting.order⟩ ∧
        released.Nodup ∧
        ∀ name, name ∈ released ↔
          name ∈ dependents ∧ sorting.inDegree name = dependents.count name := by
  induction dependents using List.reverseRecOn with
  | nil => exact ⟨[], by simp, nodup_nil, by simp⟩
  | append_singleton rest dep ih =>
    have counted (name : Name) : ((rest ++ [dep]).count name : Int) =
        rest.count name + if name = dep then 1 else 0 := by
      by_cases same : name = dep
      · simp [same]
      · simp [same, Ne.symm same]
    obtain ⟨released, run, nodup, member⟩ := ih fun name => by
      have := bounded name
      rw [counted] at this
      omega
    have open_ := bounded dep
    have degrees : update (fun name => sorting.inDegree name - (rest.count name : Int)) dep
        (sorting.inDegree dep - rest.count dep - 1) =
          fun name => sorting.inDegree name - ((rest ++ [dep]).count name : Int) := by
      funext name
      rw [counted]
      by_cases same : name = dep
      · subst same
        simp
        omega
      · simp [same]
    simp only [foldl_append, run, foldl_cons, foldl_nil, Sorting.release, degrees]
    rw [counted, if_pos rfl] at open_
    by_cases last : sorting.inDegree dep = (rest ++ [dep]).count dep
    · refine ⟨released ++ [dep], by simp [last], ?_, fun name => ?_⟩
      · -- The last open dependency of `dep`: it was not queued before.
        refine concat_eq_append ▸ nodup.concat fun again => ?_
        have := ((member dep).mp again).2
        omega
      · by_cases same : name = dep
        · subst same
          exact iff_of_true (by simp) ⟨by simp, last⟩
        · rw [mem_append, member, counted]
          simp [same]
    · refine ⟨released, by rw [if_neg (by omega)], nodup, fun name => ?_⟩
      rw [member]
      by_cases same : name = dep
      · subst same
        exact iff_of_false (fun early => by omega) fun late => last late.2
      · rw [counted]
        simp [same]

/-- What holds whenever the main loop tests its queue: the services placed so
far were each the least possible, the in-degree of a service counts its open
dependencies, and the queue holds the services without one. -/
structure Placing (services : Services Name) (range : List (Name × List Name))
    (sorting : Sorting Name) : Prop where
  least : TakesLeast services.names services.DependsOn sorting.order
  degree : ∀ name, sorting.inDegree name =
    (listed range name).countP fun dep => dep ∉ sorting.order
  sorted : sorting.queue.Pairwise (· ≤ ·)
  nodup : sorting.queue.Nodup
  queued : ∀ name, name ∈ sorting.queue ↔
    Eligible services.names services.DependsOn sorting.order name

theorem countP_open_append {order : List Name} {n : Name} (fresh : n ∉ order)
    (deps : List Name) :
    deps.countP (fun dep => dep ∉ order) =
      deps.countP (fun dep => dep ∉ order ++ [n]) + deps.count n := by
  induction deps with
  | nil => rfl
  | cons dep rest before =>
    rw [countP_cons, countP_cons, count_cons, before]
    by_cases same : dep = n
    · subst same
      simp only [mem_append, mem_singleton, fresh, beq_self_eq_true]
      simp
      omega
    · by_cases placed : dep ∈ order
      · simp [same, placed]
      · simp only [mem_append, mem_singleton, same, placed, beq_iff_eq]
        simp
        omega

section Turn

variable {services : Services Name} {range : List (Name × List Name)}
  (met : range.Perm services.entries)

include met

theorem countP_open_eq_zero (order : List Name) (name : Name) :
    (listed range name).countP (fun dep => dep ∉ order) = 0 ↔
      ∀ dep, services.DependsOn name dep → dep ∈ order := by
  simp [countP_eq_zero, mem_listed met]

variable {inDegree : Name → Int} {n : Name} {queue order : List Name}
  (placing : Placing services range ⟨inDegree, n :: queue, order⟩)

include placing

/-- The services that wait after `n` is placed: those that waited behind it and
those for which it was the last open dependency. -/
theorem Placing.eligible_append (name : Name) :
    Eligible services.names services.DependsOn (order ++ [n]) name ↔
      name ∈ queue ∨ services.DependsOn name n ∧
        (listed range name).countP (fun dep => dep ∉ order ++ [n]) = 0 := by
  have eligible_n : Eligible services.names services.DependsOn order n :=
    (placing.queued n).mp (mem_cons_self ..)
  have behind : n ∉ queue := (nodup_cons.mp placing.nodup).1
  constructor
  · intro eligible
    by_cases waits : services.DependsOn name n
    · exact .inr ⟨waits, (countP_open_eq_zero met _ name).mpr eligible.met⟩
    · left
      have fresh : name ∉ order ∧ name ≠ n := by simpa using eligible.unplaced
      have before : Eligible services.names services.DependsOn order name := by
        refine ⟨eligible.known, fresh.1, fun dep dependsOn => ?_⟩
        have placed : dep ∈ order ∨ dep = n := by simpa using eligible.met dep dependsOn
        exact placed.resolve_right fun same => waits (same ▸ dependsOn)
      have member : name ∈ n :: queue := (placing.queued name).mpr before
      exact (mem_cons.mp member).resolve_left fresh.2
  · rintro (waiting | ⟨waits, none⟩)
    · have eligible := (placing.queued name).mp (mem_cons_of_mem n waiting)
      refine ⟨eligible.known, ?_, fun dep dependsOn => ?_⟩
      · have other : name ≠ n := fun same => behind (same ▸ waiting)
        simp [eligible.unplaced, other]
      · simp [eligible.met dep dependsOn]
    · refine ⟨Services.mem_names_of_dependsOn waits, ?_, (countP_open_eq_zero met _ name).mp none⟩
      intro placed
      -- A placed service has its dependencies before it, so `n` would be placed.
      have before : name ∈ order ∨ name = n := by simpa using placed
      rcases before with inside | rfl
      · obtain ⟨earlier, later, split⟩ := append_of_mem inside
        have placed_n := placing.least.respects earlier name later split n waits
        exact eligible_n.unplaced (by simp [split, placed_n])
      · exact eligible_n.unplaced (eligible_n.met name waits)

theorem Placing.turn :
    ∃ inDegree' queue',
      (sortStrings ((Edges.build range).dependents n)).foldl Sorting.release
          ⟨inDegree, queue, order ++ [n]⟩ = ⟨inDegree', queue', order ++ [n]⟩ ∧
        Placing services range ⟨inDegree', sortStrings queue', order ++ [n]⟩ := by
  have eligible_n : Eligible services.names services.DependsOn order n :=
    (placing.queued n).mp (mem_cons_self ..)
  have count_sorted : ∀ name, (sortStrings ((Edges.build range).dependents n)).count name =
      (listed range name).count n := fun name => by
    rw [(sortStrings_perm _).count_eq, (Edges.counts_build range).dependents]
  have degree_split : ∀ name, inDegree name =
      (listed range name).countP (fun dep => dep ∉ order ++ [n]) +
        (listed range name).count n := fun name => by
    have degree : inDegree name = _ := placing.degree name
    rw [degree, countP_open_append eligible_n.unplaced]
    push_cast
    rfl
  obtain ⟨released, run, nodup, member⟩ := Sorting.foldl_release
    (sortStrings ((Edges.build range).dependents n)) ⟨inDegree, queue, order ++ [n]⟩
    (fun name => by rw [count_sorted]; have := degree_split name; simp only; omega)
  have released_iff : ∀ name, name ∈ released ↔ services.DependsOn name n ∧
      (listed range name).countP (fun dep => dep ∉ order ++ [n]) = 0 := by
    intro name
    have occurs : name ∈ sortStrings ((Edges.build range).dependents n) ↔
        services.DependsOn name n := by
      rw [← mem_listed met, ← count_pos_iff, count_sorted, count_pos_iff]
    rw [member, occurs, count_sorted]
    have := degree_split name
    simp only
    refine and_congr_right fun _ => ?_
    omega
  refine ⟨_, _, run, ?_⟩
  refine ⟨?_, ?_, sortStrings_pairwise _, ?_, ?_⟩
  · refine placing.least.append eligible_n fun other eligible => ?_
    have member_other : other ∈ n :: queue := (placing.queued other).mpr eligible
    rcases mem_cons.mp member_other with rfl | behind
    · exact le_refl other
    · exact rel_of_pairwise_cons placing.sorted behind
  · intro name
    have := degree_split name
    simp only [count_sorted]
    omega
  · refine (sortStrings_perm _).nodup_iff.mpr ?_
    refine nodup_append.mpr ⟨(nodup_cons.mp placing.nodup).2, nodup, ?_⟩
    rintro name waiting other fresh rfl
    have eligible := (placing.queued name).mp (mem_cons_of_mem n waiting)
    exact eligible_n.unplaced (eligible.met n ((released_iff name).mp fresh).1)
  · intro name
    rw [placing.eligible_append met, ← released_iff, ← mem_append]
    exact (sortStrings_perm _).mem_iff

end Turn

/-! ## The whole sort -/

theorem placeServices_ends (met : range.Perm services.entries) (turns : Nat)
    (sorting : Sorting Name) (placing : Placing services range sorting)
    (enough : services.names.length ≤ sorting.order.length + turns) :
    ∃ inDegree order,
      placeServices (Edges.build range).dependents turns sorting = some order ∧
        Placing services range ⟨inDegree, [], order⟩ := by
  obtain ⟨inDegree, queue, order⟩ := sorting
  induction turns generalizing inDegree queue order with
  | zero =>
    cases queue with
    | nil => exact ⟨inDegree, order, rfl, placing⟩
    | cons n queue =>
      -- Every service is placed already, so none can wait.
      have eligible := (placing.queued n).mp (mem_cons_self ..)
      have all : order.Perm services.names :=
        (subperm_of_subset placing.least.nodup placing.least.subset).perm_of_length_le
          (by simpa using enough)
      exact absurd (all.mem_iff.mpr eligible.known) eligible.unplaced
  | succ turns remaining =>
    cases queue with
    | nil => exact ⟨inDegree, order, rfl, placing⟩
    | cons n queue =>
      obtain ⟨inDegree', queue', run, next⟩ := placing.turn met
      rw [placeServices, run]
      refine remaining inDegree' (sortStrings queue') (order ++ [n]) next ?_
      simp only [length_append, length_singleton] at enough ⊢
      omega

theorem placing_start {keys : List Name} (met : range.Perm services.entries)
    (all : keys.Perm services.names) :
    Placing services range ⟨(Edges.build range).inDegree,
      sortStrings (keys.filter fun name => (Edges.build range).inDegree name = 0), []⟩ := by
  refine ⟨TakesLeast.nil, ?_, sortStrings_pairwise _, ?_, ?_⟩
  · intro name
    simp [(Edges.counts_build range).inDegree, countP_true]
  · refine (sortStrings_perm _).nodup_iff.mpr (List.Nodup.filter _ ?_)
    exact all.nodup_iff.mpr services.names_nodup
  · intro name
    have none_open := countP_open_eq_zero met [] name
    rw [(sortStrings_perm _).mem_iff, mem_filter, all.mem_iff, (Edges.counts_build range).inDegree]
    constructor
    · rintro ⟨known, zero⟩
      refine ⟨known, not_mem_nil, none_open.mp ?_⟩
      simpa using zero
    · intro eligible
      refine ⟨eligible.known, ?_⟩
      simpa using none_open.mpr eligible.met

/-- Whatever the orders in which Go ranges over the two maps, the sort fails
exactly on a dependency cycle and else gives the lexicographically least order
of the services that puts dependencies first. -/
theorem topologicalSort_least_schedule (services : Services Name)
    (defined : services.Defined) (range : List (Name × List Name)) (keys : List Name)
    (met : range.Perm services.entries) (all : keys.Perm services.names) :
    ∃ result, topologicalSort services range keys = some result ∧
      ((∃ message, result = .error message) ↔ HasCycle services.DependsOn) ∧
      ∀ order, result = .ok order →
        IsSchedule services.names services.DependsOn order ∧
          ∀ other, IsSchedule services.names services.DependsOn other → order ≤ other := by
  obtain ⟨inDegree, order, run, placing⟩ := placeServices_ends met services.entries.length _
    (placing_start met all) (by simp [Services.length_names])
  have stuck : ∀ name, ¬ Eligible services.names services.DependsOn order name :=
    fun name eligible => not_mem_nil ((placing.queued name).mpr eligible)
  simp only [topologicalSort, run, Option.map_some, Option.some.injEq, exists_eq_left']
  by_cases complete : order.length = services.entries.length
  · have schedule : IsSchedule services.names services.DependsOn order :=
      ⟨(subperm_of_subset placing.least.nodup placing.least.subset).perm_of_length_le
        (by simp [Services.length_names, complete]), placing.least.respects⟩
    have acyclic : ¬ HasCycle services.DependsOn := schedule.not_hasCycle services.names_nodup
      fun _ _ => Services.mem_names_of_dependsOn
    rw [if_neg (not_not.mpr complete)]
    refine ⟨by simp [acyclic], ?_⟩
    rintro _ ⟨⟩
    exact ⟨schedule, fun other => placing.least.le services.names_nodup⟩
  · have left : ∃ name ∈ services.names, name ∉ order := by
      by_contra none
      push Not at none
      have all_placed := (subperm_of_subset services.names_nodup none).length_le
      have no_more : order.length ≤ services.names.length :=
        (subperm_of_subset placing.least.nodup placing.least.subset).length_le
      rw [Services.length_names] at all_placed no_more
      omega
    have known : ∀ name ∈ services.names, ∀ dep, services.DependsOn name dep →
        dep ∈ services.names := by
      rintro name - dep ⟨dependsOn, member, inside⟩
      exact defined (name, dependsOn) member dep inside
    have cycle := hasCycle_of_stuck known stuck left
    rw [if_pos complete]
    simp [cycle]

def webServices : Services String where
  entries := [("web", ["db", "cache"]), ("db", []), ("cache", [])]
  nodup := by decide

theorem webServices_sorted :
    topologicalSort webServices webServices.entries webServices.names =
        some (.ok ["cache", "db", "web"]) ∧
      IsSchedule webServices.names webServices.DependsOn ["cache", "db", "web"] ∧
      ∀ other, IsSchedule webServices.names webServices.DependsOn other →
        ["cache", "db", "web"] ≤ other := by
  have sorted : topologicalSort webServices webServices.entries webServices.names =
      some (.ok ["cache", "db", "web"]) := by decide
  have defined : webServices.Defined := by
    unfold Services.Defined
    decide
  obtain ⟨result, run, -, least⟩ := topologicalSort_least_schedule webServices defined _ _
    (List.Perm.refl _) (List.Perm.refl _)
  obtain rfl : .ok _ = result := Option.some.inj (sorted.symm.trans run)
  exact ⟨sorted, least _ rfl⟩

end Jerboa.Compose
