import RecordCodec.Failure

set_option autoImplicit false

/-!
# Failures on their way out

A failure is passed on outwards through the layers around the value that it is about. Each layer
puts its step in front of the path. The cause is made that of a field once at most: the innermost
field on the way takes over a leaf, and what it makes of the leaf is none any more.
-/
namespace RecordCodec

/-- What a failure is passed on through: an entry, an item, or a field of a record. -/
inductive Layer where
  | key (key : String)
  | index (index : Nat)
  | field (record field : String)

namespace Layer

def pass : Layer → Failure → Failure
  | key k => .atKey k
  | index i => .atIndex i
  | field record name => .inField record name

def segment : Layer → Segment
  | key k => .key k
  | index i => .index i
  | field _ name => .key name

def field? : Layer → Option (String × String)
  | field record name => some (record, name)
  | _ => none

variable (layer : Layer) (e : Failure)

theorem path_pass : (layer.pass e).path = layer.segment :: e.path := by
  cases layer <;> rfl

/-- Only a field changes the cause, and only that of a leaf. -/
theorem cause_pass : (layer.pass e).cause =
    match layer.field?, e.isLeaf with
    | some (record, name), true => .fieldConversion record name e.cause.found? e.cause
    | _, _ => e.cause := by
  cases layer with
  | key | index => rfl
  | field record name =>
    simp only [pass, Failure.inField, Failure.atKey, field?]
    cases e.isLeaf <;> rfl

theorem isLeaf_pass : (layer.pass e).isLeaf = (layer.field?.isNone && e.isLeaf) := by
  rw [Failure.isLeaf, cause_pass]
  cases layer with
  | key | index => rfl
  | field record name =>
    cases leaf : e.isLeaf with
    | true => rfl
    | false => exact leaf

end Layer

namespace Failure

/-- Passes a failure on through some layers, the innermost first. -/
def through (layers : List Layer) (e : Failure) : Failure :=
  layers.foldl (fun e layer => layer.pass e) e

variable (e : Failure) (layer : Layer) (layers : List Layer)

theorem through_cons : e.through (layer :: layers) = (layer.pass e).through layers := rfl

theorem path_through : (e.through layers).path = (layers.map Layer.segment).reverse ++ e.path := by
  induction layers generalizing e with
  | nil => rfl
  | cons layer rest ih =>
    rw [through_cons, ih, Layer.path_pass, List.map_cons, List.reverse_cons, List.append_assoc,
      List.singleton_append]

theorem cause_through_of_not_isLeaf {e : Failure} (h : e.isLeaf = false) :
    (e.through layers).cause = e.cause := by
  induction layers generalizing e with
  | nil => rfl
  | cons layer rest ih =>
    have still : (layer.pass e).isLeaf = false := by rw [Layer.isLeaf_pass, h, Bool.and_false]
    rw [through_cons, ih still, Layer.cause_pass, h]
    cases layer <;> rfl

/-- A failure that is passed on gets the steps of the layers in front of its path, the outermost
first. It keeps its cause if this is no leaf or if none of the layers is a field. Otherwise the
cause is the failed conversion of the first field, with the leaf and the value that it has found. -/
theorem through_composes :
    (e.through layers).path = (layers.map Layer.segment).reverse ++ e.path ∧
    (e.through layers).cause =
      match layers.findSome? Layer.field?, e.isLeaf with
      | some (record, name), true => .fieldConversion record name e.cause.found? e.cause
      | _, _ => e.cause := by
  refine ⟨path_through e layers, ?_⟩
  induction layers generalizing e with
  | nil => rfl
  | cons layer rest ih =>
    rw [through_cons]
    cases field : layer.field? with
    | none =>
      -- the cause is passed on as it is
      have cause : (layer.pass e).cause = e.cause := by rw [Layer.cause_pass, field]
      rw [ih, isLeaf, cause, List.findSome?_cons, field]
      rfl
    | some name =>
      -- no field further out takes over what this one leaves
      have settled : (layer.pass e).isLeaf = false := by rw [Layer.isLeaf_pass, field]; rfl
      rw [cause_through_of_not_isLeaf rest settled, Layer.cause_pass, List.findSome?_cons, field]

example : (invalid "int" (.string "x")).through
    [.index 2, .field "Scroll" "deltas", .key "kind", .field "Event" "kind"] =
      ⟨.fieldConversion "Scroll" "deltas" (some (.string "x")) (.invalidValue "int" (.string "x")),
        [.key "kind", .key "kind", .key "deltas", .index 2]⟩ := rfl

end Failure
end RecordCodec
