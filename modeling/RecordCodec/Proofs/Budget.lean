import RecordCodec.Proofs.Handling
import RecordCodec.Proofs.Keys
import RecordCodec.Proofs.Sessions

set_option autoImplicit false

/-!
# The fuel of a session

Of the routines that are compiled inside one another no two have the same key, and there are no
more keys than the fuel is made for. What is left of it always covers a type and all routines that
can still be compiled inside the ones that are.
-/
namespace RecordCodec

namespace TypeExpr

theorem depth_le_of_mem {tys : List TypeExpr} {ty : TypeExpr} (h : ty ∈ tys) :
    ty.depth ≤ depthOfAll tys := by
  induction tys with
  | nil => cases h
  | cons other rest ih =>
    rw [depthOfAll]
    rcases List.mem_cons.1 h with rfl | h
    · exact Nat.le_max_left _ _
    · exact Nat.le_trans (ih h) (Nat.le_max_right _ _)

theorem depth_mapShapes (f : Shape → Shape) (ty : TypeExpr) :
    (ty.mapShapes f).depth = ty.depth := by
  induction ty using TypeExpr.induction with
  | node shape args literals ih =>
    have all : depthOfAll (args.map (mapShapes f)) = depthOfAll args := by
      induction args with
      | nil => rfl
      | cons ty rest others =>
        obtain ⟨first, later⟩ := List.forall_mem_cons.1 ih
        rw [List.map_cons, depthOfAll, depthOfAll, first, others later]
    rw [mapShapes, mapAllShapes_eq, depth, depth, all]

end TypeExpr

theorem Handled.depth_lt {schema : Schema} {registry : Registry} {ty target : TypeExpr}
    {handler : Handler} (h : Handled schema registry ty handler target) {arg : TypeExpr}
    (mem : arg ∈ target.args) : arg.depth < ty.depth := by
  rcases h.target_eq_or with rfl | none
  · have same : (schema.resolve ty).depth = ty.depth := TypeExpr.depth_mapShapes _ _
    rw [← same]
    generalize schema.resolve ty = resolved at mem
    obtain ⟨shape, args, literals⟩ := resolved
    rw [TypeExpr.depth]
    exact Nat.lt_succ_of_le (TypeExpr.depth_le_of_mem mem)
  · rw [none] at mem
    cases mem

namespace Compile

open Routine Direct Compilation

theorem depth_le_typeDepth {schema : Schema} {name : String} {r : RecordType} {f : Field}
    (declared : schema.record? name = some r) (mem : f ∈ r.fields) :
    f.type.depth ≤ typeDepth schema := by
  have all : ∀ (fields : List Field) (n : Nat), n ≤ fields.foldl (fun n f => max n f.type.depth) n ∧
      ∀ f ∈ fields, f.type.depth ≤ fields.foldl (fun n f => max n f.type.depth) n := by
    intro fields
    induction fields with
    | nil => simp
    | cons g rest ih =>
      intro n
      obtain ⟨grows, holds⟩ := ih (max n g.type.depth)
      rw [List.foldl_cons, List.forall_mem_cons]
      exact ⟨Nat.le_trans (Nat.le_max_left _ _) grows,
        Nat.le_trans (Nat.le_max_right _ _) grows, holds⟩
  refine (all _ 0).2 f (List.mem_flatMap.2 ⟨r, ?_, mem⟩)
  exact List.mem_map_of_mem (f := Prod.snd) (Assoc.mem_of_get? declared)

variable {schema : Schema} {start key : String × Config} {active : List (String × Config)}

/-- The keys of routines inside one another are different ones of the session. -/
structure Within (schema : Schema) (start : String × Config) (active : List (String × Config)) :
    Prop where
  distinct : active.Nodup
  among : ∀ k ∈ active, k ∈ sessionKeys schema start

theorem Within.nil : Within schema start [] := ⟨.nil, fun _ mem => absurd mem List.not_mem_nil⟩

theorem Within.enter (h : Within schema start active) (idle : key ∉ active)
    (mem : key ∈ sessionKeys schema start) : Within schema start (active ++ [key]) := by
  constructor
  · refine List.nodup_append.2 ⟨h.distinct, List.pairwise_singleton _ _, fun k before k' last => ?_⟩
    obtain rfl := List.mem_singleton.1 last
    exact fun same => idle (same ▸ before)
  · intro k isActive
    rcases List.mem_append.1 isActive with before | last
    · exact h.among k before
    · rwa [List.mem_singleton.1 last]

theorem Within.length_le {name : String} {record : RecordType}
    (declared : schema.record? name = some record) (h : Within schema start active) :
    active.length ≤ keyChoices schema :=
  length_le_keyChoices declared h.distinct h.among

structure Placed (schema : Schema) (start : String × Config) (active : List (String × Config))
    (here : Position) : Prop extends Within schema start active where
  config : ∃ name, (name, here.config) ∈ sessionKeys schema start
  discriminator : ∀ key, here.discriminator = some key → key ∈ tagKeys schema start.2

def Meets (schema : Schema) (here : Position) (target : TypeExpr) (key : String × Config) : Prop :=
  (target.shape.recordName? = some key.1 ∧ key.2 = here.nestedConfig schema key.1) ∨
    ∃ ty ∈ target.args, (here.arm schema ty).record = some key

theorem mem_sessionKeys_of_meets {here : Position}
    (isKey : here.unionKey ∈ tagKeys schema start.2) {target : TypeExpr}
    (isMet : Meets schema here target key) {record : RecordType}
    (declared : schema.record? key.1 = some record) : key ∈ sessionKeys schema start := by
  obtain ⟨name, config⟩ := key
  rcases isMet with ⟨-, isConfig⟩ | ⟨ty, -, isArm⟩
  · change config = here.nestedConfig schema name at isConfig
    rw [isConfig, Position.nestedConfig_of_declared declared]
    exact inherit_mem_sessionKeys declared _
  · unfold Position.arm at isArm
    split at isArm
    · cases isArm
    · cases isArm
      rw [Position.nestedConfig_of_declared declared]
      exact armConfig_mem_sessionKeys declared _ isKey _

namespace Placed

variable {here : Position}

theorem field (within : Within schema start active) {name : String} {config : Config}
    (mem : (name, config) ∈ sessionKeys schema start) {record : RecordType}
    (declared : schema.record? name = some record) {f : Field} (isField : f ∈ record.fields) :
    Placed schema start active ⟨config, f.discriminator⟩ := by
  refine ⟨within, ⟨name, mem⟩, fun key isKey => mem_tagKeys.2 (.inr (.inr ?_))⟩
  exact ⟨name, record, Assoc.mem_of_get? declared, .inr ⟨f, isField, isKey⟩⟩

theorem unionKey_mem (h : Placed schema start active here) :
    here.unionKey ∈ tagKeys schema start.2 := by
  rw [Position.unionKey]
  cases own : here.discriminator with
  | some key => exact h.discriminator key own
  | none =>
    cases configured : here.config.tagKey? with
    | some key =>
      obtain ⟨name, mem⟩ := h.config
      exact tagKey_mem_tagKeys mem configured
    | none => exact mem_tagKeys.2 (.inl rfl)

theorem meets (h : Placed schema start active here) {target : TypeExpr}
    (isMet : Meets schema here target key) {record : RecordType}
    (declared : schema.record? key.1 = some record) : key ∈ sessionKeys schema start :=
  mem_sessionKeys_of_meets h.unionKey_mem isMet declared

end Placed

/-- How many more routines can be compiled inside the ones that are. -/
def room (schema : Schema) (active : List (String × Config)) : Nat :=
  keyChoices schema - active.length

/-- What is needed below a type of some depth, with the routines that may be compiled inside it. -/
def need (schema : Schema) (active : List (String × Config)) (depth : Nat) : Nat :=
  depth + room schema active * (typeDepth schema + 2)

theorem need_enter_lt (bounded : (active ++ [key]).length ≤ keyChoices schema) {depth : Nat}
    (shallow : depth ≤ typeDepth schema) :
    need schema (active ++ [key]) depth < need schema active 0 := by
  rw [List.length_append, List.length_singleton] at bounded
  obtain ⟨more, isMore⟩ := Nat.exists_eq_add_of_le bounded
  have before : room schema active = more + 1 := by
    rw [room]
    omega
  have after : room schema (active ++ [key]) = more := by
    rw [room, List.length_append, List.length_singleton]
    omega
  rw [need, need, before, after, Nat.succ_mul]
  omega

theorem need_le_fuelFor : need schema active 0 ≤ fuelFor schema := by
  rw [need, room, fuelFor, Nat.zero_add]
  exact Nat.mul_le_mul_right _ (Nat.le_succ_of_le (Nat.sub_le _ _))

/-- The fuel is enough for the type. An argument that is not given takes one unit. -/
def Affords (schema : Schema) (active : List (String × Config)) (ty : TypeExpr) (fuel : Nat) :
    Prop :=
  need schema active ty.depth < fuel ∨ ty = .any ∧ 0 < fuel

theorem Affords.of_mem_or_any {registry : Registry} {ty target arg : TypeExpr} {handler : Handler}
    {fuel : Nat} (enough : need schema active ty.depth ≤ fuel)
    (handled : Handled schema registry ty handler target) (h : arg ∈ target.args ∨ arg = .any) :
    Affords schema active arg fuel := by
  unfold need at enough
  rcases h with mem | isAny
  · have less := handled.depth_lt mem
    left
    unfold need
    omega
  · have positive : 0 < ty.depth := by
      obtain ⟨shape, args, literals⟩ := ty
      exact Nat.succ_pos _
    exact .inr ⟨isAny, by omega⟩

theorem Affords.arg {registry : Registry} {ty target : TypeExpr} {handler : Handler} {fuel : Nat}
    (enough : need schema active ty.depth ≤ fuel)
    (handled : Handled schema registry ty handler target) (index : Nat) :
    Affords schema active (target.arg index) fuel :=
  .of_mem_or_any enough handled (target.arg_mem_or_any index)

theorem Affords.of_mem {registry : Registry} {ty target arg : TypeExpr} {handler : Handler}
    {fuel : Nat} (enough : need schema active ty.depth ≤ fuel)
    (handled : Handled schema registry ty handler target) (mem : arg ∈ target.args) :
    Affords schema active arg fuel :=
  .of_mem_or_any enough handled (.inl mem)

/-- The fields that are compiled in a direction are fields of the record. -/
def Mode.Own {I O : Type} (mode : Mode I O) : Prop :=
  ∀ r config, ∀ f ∈ mode.fields r config, f ∈ r.fields

namespace RecursionGuard

variable {g : RecursionGuard} {direction : Direction}

def keys (g : RecursionGuard) : List (String × Config) :=
  g.active.map fun e => (e.1.record, e.1.config)

def Directed (direction : Direction) (g : RecursionGuard) : Prop :=
  ∀ e ∈ g.active, e.1.direction = direction

theorem keys_enter (key : RoutineKey) (name : String) (g : RecursionGuard) :
    (g.enter key name).keys = g.keys ++ [(key.record, key.config)] := by
  simp [keys, enter]

theorem isSome_name?_enter {key other : RoutineKey} {name : String} :
    ((g.enter key name).name? other).isSome ↔ (g.name? other).isSome ∨ other = key := by
  rw [name?, name?, Assoc.isSome_get?_iff, Assoc.isSome_get?_iff]
  simp [Assoc.keys, enter]

theorem Directed.enter (h : g.Directed direction) (name routine : String) (config : Config) :
    (g.enter ⟨name, config, direction⟩ routine).Directed direction := by
  intro e mem
  rcases mem_enter.1 mem with mem | rfl
  · exact h e mem
  · rfl

theorem name?_eq_none_iff (h : g.Directed direction) {name : String} {config : Config} :
    g.name? ⟨name, config, direction⟩ = none ↔ (name, config) ∉ g.keys := by
  rw [name?, Assoc.get?_eq_none_iff, Decidable.not_iff_not]
  simp only [Assoc.keys, keys, List.mem_map]
  constructor
  · rintro ⟨e, mem, same⟩
    exact ⟨e, mem, by rw [same]⟩
  · rintro ⟨e, mem, same⟩
    refine ⟨e, mem, ?_⟩
    have directed := h e mem
    obtain ⟨⟨name', config', direction'⟩, routine⟩ := e
    cases same
    cases directed
    rfl

end RecursionGuard

variable {I O : Type} {cx : Context I O} {s s' : Compilation I O}

/-- The keys of the session whose routines are being compiled, whatever else is. -/
noncomputable def busy (cx : Context I O) (start : String × Config) (s : Compilation I O) :
    List (String × Config) :=
  (sessionKeys cx.schema start).dedup.filter fun k =>
    (s.guard.name? ⟨k.1, k.2, cx.mode.direction⟩).isSome

theorem mem_busy : key ∈ busy cx start s ↔ key ∈ sessionKeys cx.schema start ∧
    (s.guard.name? ⟨key.1, key.2, cx.mode.direction⟩).isSome := by
  rw [busy, List.mem_filter, List.mem_dedup]

theorem within_busy : Within cx.schema start (busy cx start s) :=
  ⟨(List.nodup_dedup _).filter _, fun _ mem => (mem_busy.1 mem).1⟩

theorem Compilation.Extends.busy (h : Extends s s') : busy cx start s' = busy cx start s := by
  rw [Compile.busy, Compile.busy, h.guard]

theorem not_mem_busy (idle : s.guard.name? ⟨key.1, key.2, cx.mode.direction⟩ = none) :
    key ∉ busy cx start s := by
  intro mem
  have found := (mem_busy.1 mem).2
  rw [idle] at found
  cases found

theorem length_busy_of_enter {routine : String} (mem : key ∈ sessionKeys cx.schema start)
    (idle : s.guard.name? ⟨key.1, key.2, cx.mode.direction⟩ = none)
    (entered : s'.guard = s.guard.enter ⟨key.1, key.2, cx.mode.direction⟩ routine) :
    (busy cx start s').length = (busy cx start s ++ [key]).length := by
  have distinct := (within_busy.enter (not_mem_busy idle) mem).distinct
  refine ((List.perm_ext_iff_of_nodup within_busy.distinct distinct).2 fun k => ?_).length_eq
  have same : (⟨k.1, k.2, cx.mode.direction⟩ : RoutineKey) = ⟨key.1, key.2, cx.mode.direction⟩ ↔
      k = key := by simp [Prod.ext_iff]
  rw [List.mem_append, List.mem_singleton, mem_busy, mem_busy, entered,
    RecursionGuard.isSome_name?_enter, same]
  constructor
  · rintro ⟨isKey, isActive | rfl⟩
    · exact .inl ⟨isKey, isActive⟩
    · exact .inr rfl
  · rintro (⟨isKey, isActive⟩ | rfl)
    · exact ⟨isKey, .inl isActive⟩
    · exact ⟨mem, .inr rfl⟩

theorem need_busy_lt_of_enter {routine : String} {record : RecordType}
    (declared : cx.schema.record? key.1 = some record) (mem : key ∈ sessionKeys cx.schema start)
    (idle : s.guard.name? ⟨key.1, key.2, cx.mode.direction⟩ = none)
    (entered : s'.guard = s.guard.enter ⟨key.1, key.2, cx.mode.direction⟩ routine) {depth : Nat}
    (shallow : depth ≤ typeDepth cx.schema) :
    need cx.schema (busy cx start s') depth < need cx.schema (busy cx start s) 0 := by
  have bounded := (within_busy.enter (not_mem_busy idle) mem).length_le declared
  calc
    need cx.schema (busy cx start s') depth = need cx.schema (busy cx start s ++ [key]) depth := by
      rw [need, room, need, room, length_busy_of_enter mem idle entered]
    _ < need cx.schema (busy cx start s) 0 := need_enter_lt bounded shallow

end Compile
end RecordCodec
