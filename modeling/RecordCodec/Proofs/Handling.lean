import RecordCodec.Proofs.Direct

set_option autoImplicit false

/-!
# How types are handled

A type is resolved, and then the registry finds its handler and the type that this is to compile:
the resolved type itself, or an ancestor of it, which has no arguments.
-/
namespace RecordCodec

namespace TypeExpr

theorem mapAllShapes_eq (f : Shape → Shape) (tys : List TypeExpr) :
    mapAllShapes f tys = tys.map (mapShapes f) := by
  induction tys with
  | nil => rfl
  | cons ty rest ih => rw [mapAllShapes, ih, List.map_cons]

theorem induction {motive : TypeExpr → Prop}
    (node : ∀ shape args literals, (∀ ty ∈ args, motive ty) → motive ⟨shape, args, literals⟩)
    (ty : TypeExpr) : motive ty :=
  @TypeExpr.rec motive (fun tys => ∀ ty ∈ tys, motive ty)
    (fun shape args literals ih => node shape args literals ih)
    (fun _ h => absurd h List.not_mem_nil)
    (fun _ _ first others ty h => by
      rcases List.mem_cons.1 h with rfl | h
      · exact first
      · exact others ty h) ty

theorem arg_mem_or_any (ty : TypeExpr) (index : Nat) :
    ty.arg index ∈ ty.args ∨ ty.arg index = any := by
  unfold arg
  cases h : ty.args[index]? with
  | none => exact .inr rfl
  | some inner => exact .inl (List.mem_of_getElem? h)

end TypeExpr

namespace Schema

variable (schema : Schema)

theorem resolveShape_resolveShape (shape : Shape) :
    schema.resolveShape (schema.resolveShape shape) = schema.resolveShape shape := by
  cases shape with
  | named name =>
    simp only [resolveShape]
    cases h : schema.classify name with
    | named other =>
      have same : other = name := by
        unfold classify at h
        split at h
        · cases h
        · split at h
          · cases h
          · split at h
            · cases h
            · cases h; rfl
      rw [same] at h ⊢
      exact h
    | _ => rfl
  | _ => rfl

theorem resolve_args (ty : TypeExpr) :
    (schema.resolve ty).args = ty.args.map schema.resolve := by
  obtain ⟨shape, args, literals⟩ := ty
  exact TypeExpr.mapAllShapes_eq _ _

theorem resolve_resolve (ty : TypeExpr) :
    schema.resolve (schema.resolve ty) = schema.resolve ty := by
  induction ty using TypeExpr.induction with
  | node shape args literals ih =>
    simp only [resolve, TypeExpr.mapShapes, TypeExpr.mapAllShapes_eq, List.map_map,
      resolveShape_resolveShape, TypeExpr.mk.injEq, true_and, and_true]
    exact List.map_congr_left fun ty h => ih ty h

end Schema

namespace Registry

variable {schema : Schema} {registry : Registry}

theorem inherited?_args {names : List String} {handler : Handler} {target : TypeExpr}
    (h : registry.inherited? schema names = some (handler, target)) : target.args = [] := by
  induction names with
  | nil => cases h
  | cons name rest ih =>
    rw [inherited?] at h
    split at h
    · cases h
      unfold ancestorType
      split <;> rfl
    · exact ih h

theorem resolve_target {ty target : TypeExpr} {handler : Handler}
    (h : registry.resolve schema ty = .ok (handler, target)) :
    target = ty ∨ target.args = [] := by
  unfold resolve at h
  split at h
  · cases h
    exact .inl rfl
  · split at h
    · split at h
      · cases h
        exact .inr (inherited?_args ‹_›)
      · cases h
    · split at h
      · cases h
        exact .inr (inherited?_args ‹_›)
      · cases h
    · cases h

/-- Untyped positions are left to the built-in handler. -/
def KeepsAny (registry : Registry) : Prop := registry.lookup? .any = some (.scalar .any)

theorem keepsAny_builtin : KeepsAny .builtin := rfl

theorem KeepsAny.resolve (h : registry.KeepsAny) (schema : Schema) :
    registry.resolve schema .any = .ok (.scalar .any, .any) := by
  rw [Registry.resolve, h]

end Registry

/-- The registry has this handler for a type, to compile the given one for it. -/
def Handled (schema : Schema) (registry : Registry) (ty : TypeExpr) (handler : Handler)
    (target : TypeExpr) : Prop :=
  registry.resolve schema (schema.resolve ty) = .ok (handler, target)

namespace Handled

variable {schema : Schema} {registry : Registry} {ty target : TypeExpr} {handler : Handler}

theorem target_eq_or (h : Handled schema registry ty handler target) :
    target = schema.resolve ty ∨ target.args = [] :=
  Registry.resolve_target h

theorem resolve_of_mem (h : Handled schema registry ty handler target) {inner : TypeExpr}
    (mem : inner ∈ target.args) : schema.resolve inner = inner := by
  rcases h.target_eq_or with rfl | none
  · rw [schema.resolve_args] at mem
    obtain ⟨original, -, rfl⟩ := List.mem_map.1 mem
    exact schema.resolve_resolve original
  · rw [none] at mem
    cases mem

theorem resolve_arg (h : Handled schema registry ty handler target) (index : Nat) :
    schema.resolve (target.arg index) = target.arg index := by
  rcases target.arg_mem_or_any index with mem | any
  · exact h.resolve_of_mem mem
  · rw [any]
    rfl

theorem unique {handler' : Handler} {target' : TypeExpr}
    (h : Handled schema registry ty handler target)
    (h' : Handled schema registry ty handler' target') : handler = handler' ∧ target = target' := by
  have both := h.symm.trans h'
  cases both
  exact ⟨rfl, rfl⟩

/-- Only the handler of untyped positions is asked for them. -/
theorem target_any (h : Handled schema registry .any handler target) : target = .any := by
  unfold Handled Registry.resolve at h
  split at h
  · cases h
    rfl
  · cases h

end Handled

theorem handled_mapping (schema : Schema) {ty : TypeExpr}
    (h : ty.shape.kind = .mapping ∨ ty.shape.kind = .defaultMapping) :
    ∃ handler, Handled schema .builtin ty handler (schema.resolve ty) ∧
      (handler = .mapping ∨ handler = .defaultMapping) := by
  obtain ⟨shape, args, literals⟩ := ty
  cases shape with
  | mapping => exact ⟨.mapping, rfl, .inl rfl⟩
  | defaultMapping => exact ⟨.defaultMapping, rfl, .inr rfl⟩
  | _ => simp [Shape.kind] at h

namespace Direct

open Routine Converter

variable {schema : Schema} {registry : Registry}

theorem decodeTypes_eq (nested : Nested Json Instance) (here : Position) (tys : List TypeExpr) :
    decodeTypes schema registry nested here tys =
      tys.map (decodeType schema registry nested here) := by
  induction tys with
  | nil => rfl
  | cons ty rest ih => rw [decodeTypes, ih, List.map_cons]

theorem encodeTypes_eq (nested : Nested Instance Json) (here : Position) (tys : List TypeExpr) :
    encodeTypes schema registry nested here tys =
      tys.map (encodeType schema registry nested here) := by
  induction tys with
  | nil => rfl
  | cons ty rest ih => rw [encodeTypes, ih, List.map_cons]

theorem take_map_args {α : Type} {ty target : TypeExpr} {handler : Handler}
    (h : Handled schema registry ty handler target) (f : TypeExpr → α) :
    ((schema.resolve ty).args.map f).take target.args.length = target.args.map f := by
  rcases h.target_eq_or with rfl | none
  · rw [← List.length_map (f := f), List.take_length]
  · rw [none]
    rfl

theorem decodeType_of_handled {ty target : TypeExpr} {handler : Handler}
    (h : Handled schema registry ty handler target) (nested : Nested Json Instance)
    (here : Position) :
    decodeType schema registry nested here (schema.resolve ty) =
      decodeAs schema nested here target
        (target.args.map (decodeType schema registry nested here)) handler := by
  rw [← take_map_args h, ← decodeTypes_eq]
  unfold Handled at h
  generalize schema.resolve ty = resolved at h ⊢
  obtain ⟨shape, args, literals⟩ := resolved
  rw [decodeType, h]

theorem encodeType_of_handled {ty target : TypeExpr} {handler : Handler}
    (h : Handled schema registry ty handler target) (nested : Nested Instance Json)
    (here : Position) :
    encodeType schema registry nested here (schema.resolve ty) =
      encodeAs schema nested here target
        (target.args.map (encodeType schema registry nested here)) handler := by
  rw [← take_map_args h, ← encodeTypes_eq]
  unfold Handled at h
  generalize schema.resolve ty = resolved at h ⊢
  obtain ⟨shape, args, literals⟩ := resolved
  rw [encodeType, h]

theorem part_map {α : Type} (f : TypeExpr → α) (ty : TypeExpr) (index : Nat) :
    part (f .any) (ty.args.map f) index = f (ty.arg index) := by
  unfold part TypeExpr.arg
  rw [List.getElem?_map]
  cases ty.args[index]? <;> rfl

theorem handled_any (keeps : registry.KeepsAny) :
    Handled schema registry .any (.scalar .any) .any :=
  keeps.resolve schema

theorem decodeType_any (keeps : registry.KeepsAny) (nested : Nested Json Instance)
    (here : Position) : decodeType schema registry nested here .any = decodeAny :=
  decodeType_of_handled (handled_any keeps) nested here

theorem encodeType_any (keeps : registry.KeepsAny) (nested : Nested Instance Json)
    (here : Position) : encodeType schema registry nested here .any = encodeAny :=
  encodeType_of_handled (handled_any keeps) nested here

theorem part_decodeType (keeps : registry.KeepsAny) (nested : Nested Json Instance)
    (here : Position) (ty : TypeExpr) (index : Nat) :
    part decodeAny (ty.args.map (decodeType schema registry nested here)) index =
      decodeType schema registry nested here (ty.arg index) := by
  rw [← decodeType_any keeps nested here, part_map]

theorem part_encodeType (keeps : registry.KeepsAny) (nested : Nested Instance Json)
    (here : Position) (ty : TypeExpr) (index : Nat) :
    part encodeAny (ty.args.map (encodeType schema registry nested here)) index =
      encodeType schema registry nested here (ty.arg index) := by
  rw [← encodeType_any keeps nested here, part_map]

theorem armParts_map {I O : Type} (nested : Nested I O) (here : Position) (target : TypeExpr)
    (convert : TypeExpr → I → Run O) :
    armParts nested (here.plan schema target).arms (target.args.map convert) =
      target.args.map fun ty => armPart nested (here.arm schema ty) (convert ty) := by
  rw [armParts, Position.plan, List.zipWith_map, List.zipWith_self]

end Direct
end RecordCodec
