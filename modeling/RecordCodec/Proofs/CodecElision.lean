import RecordCodec.Proofs.CodecRoundTrip
import RecordCodec.Proofs.ElidedRoundTrip

set_option autoImplicit false

/-!
# Codecs lose nothing with defaults

A codec that leaves out fields for their defaults gets a matching instance back from what it has
written, under the same overrides and whatever routines it had before. Only the entries of mappings
may stand in another order, that of the declared default.
-/
namespace RecordCodec

open Routine Compile

/-- The settings make sense for the record, and the record and all that it reaches can be read as
they are written, with defaults left out. -/
structure ElidesDefaults (schema : Schema) (record : String) (config : Config) : Prop where
  checked : ∀ r, schema.record? record = some r → r.checkConfig config = .ok ()
  elides : ∀ name config' r, Reaches schema (record, config) name config' →
    schema.record? name = some r → Elides schema r config'

namespace ElidesDefaults

variable {schema : Schema} {record : String} {config : Config}

theorem convertible (h : ElidesDefaults schema record config) :
    Convertible schema record config where
  checked := h.checked
  types name config' r reached found := (h.elides name config' r reached found).types

/-- It is enough to look at all records under the configurations that they hand down. -/
theorem of_closed {r : RecordType} (records : List RecordType) (configs : List Config)
    (found : schema.record? record = some r) (checked : r.checkConfig config = .ok ())
    (declared : ∀ name r, schema.record? name = some r → r ∈ records) (first : config ∈ configs)
    (closed : ∀ config ∈ configs, ∀ r ∈ records, r.ownConfig.inherit config ∈ configs)
    (elides : ∀ r ∈ records, ∀ config ∈ configs, Elides schema r config) :
    ElidesDefaults schema record config where
  checked other isRecord := by
    cases found.symm.trans isRecord
    exact checked
  elides := Reaches.forall_of_closed declared first closed elides

end ElidesDefaults

/-- Whatever the codec did before, an instance comes back from its encoded form without defaults,
up to the order of the entries of mappings. If the defaults are of the types of their fields, it is
an instance of the record that comes back, its fields in declared order. -/
theorem Codec.decode_of_encode_elided {c : Codec} {record : String} {overrides config : Config}
    (declarations : c.schema.Declared) (builtin : c.registry = .builtin)
    (history : c.cache.History c.schema c.registry) (unnumbered : c.schema.Unnumbered)
    (resolved : c.resolvedConfig record overrides = .ok config)
    (elides : ElidesDefaults c.schema record config) {v w : Instance}
    (inhabits : InhabitsRecord c.schema record v) (regular : v.Regular) (plain : v.PlainSets)
    (rearranged : v.Rearranged w) :
    ∃ j back, (c.encode record w overrides).1.run = some (.ok j) ∧
      ((c.encode record w overrides).2.decode record j overrides).1.run = some (.ok back) ∧
      v.Matches back ∧ (c.schema.HasTypedDefaults → InhabitsRecord c.schema record back) := by
  obtain ⟨j, written, proper, restores⟩ := Direct.trip_of_inhabitsRecord
    (Direct.lawful_restores c.schema) declarations elides.elides .refl inhabits rearranged regular
    plain
  obtain ⟨back, read, isBack⟩ := restores j proper.same_self
  have encoded := encode_returns declarations builtin history unnumbered resolved
    elides.convertible written
  have decoded := decode_returns_of_encoded declarations builtin history unnumbered resolved
    elides.convertible w read
  refine ⟨j, back, encoded, decoded, isBack, fun typed => ?_⟩
  exact Direct.soundNested_decode declarations typed _ record config j back read

namespace Shelf

def settings : Config := { omitDefault := some true, recursive := some true }

def book : RecordType where
  name := "Book"
  fields :=
    [{ name := "title", type := .primitive .str },
      { name := "volumes", type := .primitive .int, default := some (.value (.int 1)) }]

def plainLabels : Json :=
  .object [("new", .ofInt64 2), ("old", .ofInt64 1)]

def shelf : RecordType where
  name := "Shelf"
  fields :=
    [{ name := "labels", type := .apply .mapping [.primitive .str, .primitive .int],
       default := some (.declared plainLabels) },
      { name := "marks", type := .apply .set [.primitive .int],
        default := some (.fresh (.set [])) },
      { name := "first", type := .named "Book" }]

def schema : Schema where
  records := (Table.empty.insert "Book" book).insert "Shelf" shelf

theorem schema_declared : schema.Declared :=
  .record shelf (.record book .empty rfl) rfl

theorem mem_of_record? {name : String} {r : RecordType} (h : schema.record? name = some r) :
    r ∈ [shelf, book] := by
  rw [Schema.record?, schema] at h
  simp only [Table.get?_insert] at h
  split_ifs at h <;> cases h <;> simp

theorem schema_hasIdentifiers : schema.HasIdentifiers := by
  intro name record found
  rw [Schema.record?, schema, Table.get?_insert, Table.get?_insert] at found
  split_ifs at found with isShelf isBook
  · exact isShelf ▸ rfl
  · exact isBook ▸ rfl
  · cases found

theorem handled_labels : Handled schema .builtin
    (.apply .mapping [.primitive .str, .primitive .int]) .mapping
    (.apply .mapping [.primitive .str, .primitive .int]) := rfl

theorem handled_marks : Handled schema .builtin (.apply .set [.primitive .int]) .set
    (.apply .set [.primitive .int]) := rfl

theorem handled_book : Handled schema .builtin (.named "Book") .record
    (schema.resolve (.named "Book")) := rfl

theorem reversible : ∀ r ∈ [shelf, book], ∀ f ∈ r.fields, Reversible schema f.type := by
  have isInt : Reversible schema (.primitive .int) := .scalar rfl (by decide)
  have isStr : Reversible schema (.primitive .str) := .scalar rfl (by decide)
  have areLabels : Reversible schema (.apply .mapping [.primitive .str, .primitive .int]) :=
    .mapping handled_labels (.inl rfl) rfl isInt
  have areMarks : Reversible schema (.apply .set [.primitive .int]) :=
    .items handled_marks (.inr (.inl rfl)) isInt
  have isBook : Reversible schema (.named "Book") := .record handled_book rfl rfl
  simp [shelf, book, isInt, isStr, areLabels, areMarks, isBook]

theorem proper_plainLabels : plainLabels.Proper :=
  .object (by decide) (by simp [Json.ofInt64, Json.Proper.number])

theorem proper_declared : ∀ r ∈ [shelf, book], ∀ f ∈ r.fields, ∀ raw,
    f.default = some (.declared raw) → raw.Proper := by
  simp [shelf, book, proper_plainLabels]

theorem elides : ElidesDefaults schema "Shelf" settings := by
  refine .of_closed [shelf, book] [settings] (r := shelf) rfl rfl (fun _ _ => mem_of_record?)
    (by decide) (by decide +kernel) ?_
  intro r memR config memC
  refine ⟨reversible r memR, ⟨?_, ?_, ?_, ?_⟩, ?_, ?_, proper_declared r memR, ?_⟩
  all_goals
    revert r config
    decide +kernel

/-- A shelf with the plain labels, which it holds in another order. -/
def novels : Instance :=
  .record "Shelf"
    [("labels", .map [(.str "old", .int 1), (.str "new", .int 2)]), ("marks", .set []),
      ("first", .record "Book" [("title", .str "Emma"), ("volumes", .int 1)])]

theorem inhabits_novels : InhabitsRecord schema "Shelf" novels := by
  have isInt : ∀ n, Inhabits schema (.primitive .int) (.int n) := fun n => .scalar rfl trivial
  have isStr : ∀ s, Inhabits schema (.primitive .str) (.str s) := fun s => .scalar rfl trivial
  have areLabels : Inhabits schema (.apply .mapping [.primitive .str, .primitive .int])
      (.map [(.str "old", .int 1), (.str "new", .int 2)]) := by
    refine .mapping handled_labels ?_ ?_
    · simp [isStr, TypeExpr.arg, TypeExpr.apply]
    · simp [isInt, TypeExpr.arg, TypeExpr.apply]
  have areMarks : Inhabits schema (.apply .set [.primitive .int]) (.set []) :=
    .set handled_marks (fun _ mem => absurd mem List.not_mem_nil) .nil
  have isBook : Inhabits schema (.named "Book")
      (.record "Book" [("title", .str "Emma"), ("volumes", .int 1)]) :=
    .of_inhabitsRecord handled_book rfl (.of_values (r := book) rfl (by decide)
      (.cons (isStr "Emma") (.cons (isInt 1) .nil)))
  exact .of_values (r := shelf) rfl (by decide)
    (.cons areLabels (.cons areMarks (.cons isBook .nil)))

theorem regular_novels : novels.Regular := by
  have labels : (Instance.map [(.str "old", .int 1), (.str "new", .int 2)]).Regular := by
    refine .map (by decide) ?_ ?_ <;> simp [Instance.Regular.str, Instance.Regular.int]
  have marks : (Instance.set []).Regular := .set nofun
  have first : (Instance.record "Book" [("title", .str "Emma"), ("volumes", .int 1)]).Regular :=
    .record (by decide) (by simp [Instance.Regular.str, Instance.Regular.int])
  exact .record (by decide) (by simp [labels, marks, first])

theorem plainSets_novels : novels.PlainSets := by
  have isStr : ∀ s, (Instance.str s).PlainSets := fun _ => .flat rfl
  have isInt : ∀ n, (Instance.int n).PlainSets := fun _ => .flat rfl
  have labels : (Instance.map [(.str "old", .int 1), (.str "new", .int 2)]).PlainSets :=
    .map (by simp [isInt])
  have marks : (Instance.set []).PlainSets := .set nofun
  have first : (Instance.record "Book" [("title", .str "Emma"), ("volumes", .int 1)]).PlainSets :=
    .record (by simp [isStr, isInt])
  exact .record (by simp [labels, marks, first])

def codec : Codec where
  schema := schema

end Shelf

/-- All three defaults are left out, and the labels come back in the order of their default. -/
theorem Codec.decode_of_encode_elided_shelf :
    ∃ j back, (Shelf.codec.encode "Shelf" Shelf.novels Shelf.settings).1.run = some (.ok j) ∧
      ((Shelf.codec.encode "Shelf" Shelf.novels Shelf.settings).2.decode "Shelf" j
        Shelf.settings).1.run = some (.ok back) ∧
      Shelf.novels.Matches back ∧
      (Shelf.schema.HasTypedDefaults → InhabitsRecord Shelf.schema "Shelf" back) :=
  decode_of_encode_elided Shelf.schema_declared rfl (.empty 0 0)
    Shelf.schema_hasIdentifiers.unnumbered rfl Shelf.elides Shelf.inhabits_novels
    Shelf.regular_novels Shelf.plainSets_novels (.refl _)

example : (Shelf.codec.encode "Shelf" Shelf.novels Shelf.settings).1.returnsWith (fun j =>
    j.same (.object [("first", .object [("title", .string "Emma")])])) = true := by
  decide +kernel

namespace Grove

/-- A leaf that is written without its size if it has the usual one. -/
def usualLeaf : RecordType where
  name := "Leaf"
  fields :=
    [{ name := "size", type := .primitive .int,
       default := some (.declared (.ofInt64 1)),
       skip := { ifDefault := true } }]

def usualSchema : Schema where
  records := ((Table.empty.insert "Leaf" usualLeaf).insert "Twig" twig).insert "Leaf#2" leaf2

theorem usualSchema_declared : usualSchema.Declared :=
  .record leaf2 (.record twig (.record usualLeaf .empty rfl) rfl) rfl

theorem mem_of_usualRecord? {name : String} {r : RecordType}
    (h : usualSchema.record? name = some r) : r ∈ [leaf2, twig, usualLeaf] := by
  rw [Schema.record?, usualSchema] at h
  simp only [Table.get?_insert] at h
  split_ifs at h <;> cases h <;> simp

theorem handled_usualLeaf : Handled usualSchema .builtin (.named "Leaf") .record
    (usualSchema.resolve (.named "Leaf")) := rfl

theorem handled_usualTwig : Handled usualSchema .builtin (.named "Twig") .record
    (usualSchema.resolve (.named "Twig")) := rfl

theorem usual_reversible : ∀ r ∈ [leaf2, twig, usualLeaf], ∀ f ∈ r.fields,
    Reversible usualSchema f.type := by
  have isInt : Reversible usualSchema (.primitive .int) := .scalar rfl (by decide)
  have isLeaf : Reversible usualSchema (.named "Leaf") := .record handled_usualLeaf rfl rfl
  have isTwig : Reversible usualSchema (.named "Twig") := .record handled_usualTwig rfl rfl
  simp [leaf2, twig, usualLeaf, isInt, isLeaf, isTwig]

theorem usual_declared : ∀ r ∈ [leaf2, twig, usualLeaf], ∀ f ∈ r.fields, ∀ raw,
    f.default = some (.declared raw) → raw.Proper := by
  simp [leaf2, twig, usualLeaf, Json.ofInt64, Json.Proper.number]

theorem elides : ElidesDefaults usualSchema "Leaf#2" {} := by
  refine .of_closed [leaf2, twig, usualLeaf] [{}, handedDown] (r := leaf2) rfl rfl
    (fun _ _ => mem_of_usualRecord?) (by decide) (by decide +kernel) ?_
  intro r memR config memC
  refine ⟨usual_reversible r memR, ⟨?_, ?_, ?_, ?_⟩, ?_, ?_, usual_declared r memR, ?_⟩
  all_goals
    revert r config
    decide +kernel

theorem inhabits_usualLeaf2 : InhabitsRecord usualSchema "Leaf#2" leaf2Instance := by
  have isInt : Inhabits usualSchema (.primitive .int) (.int 1) := .scalar rfl trivial
  have isLeaf : Inhabits usualSchema (.named "Leaf") leafInstance :=
    .of_inhabitsRecord handled_usualLeaf rfl
      (.of_values (r := usualLeaf) rfl (by decide) (.cons isInt .nil))
  have isTwig : Inhabits usualSchema (.named "Twig") twigInstance :=
    .of_inhabitsRecord handled_usualTwig rfl
      (.of_values (r := twig) rfl (by decide) (.cons isLeaf .nil))
  exact .of_values (r := leaf2) rfl (by decide) (.cons isLeaf (.cons isTwig .nil))

theorem plainSets_leaf2Instance : leaf2Instance.PlainSets := by
  have isInt : (Instance.int 1).PlainSets := .flat rfl
  have isLeaf : leafInstance.PlainSets := .record (by simp [isInt])
  have isTwig : twigInstance.PlainSets := .record (by simp [isLeaf])
  exact .record (by simp [isLeaf, isTwig])

def usualCodec : Codec where
  schema := usualSchema

end Grove

/-- A record named like another one with a number is not encoded, whether sizes are left out or
not: its routine has the name that the second routine of a leaf is given. -/
theorem Codec.not_encode_elided_leaf2 :
    Grove.usualSchema.Declared ∧ ElidesDefaults Grove.usualSchema "Leaf#2" {} ∧
      Grove.usualCodec.resolvedConfig "Leaf#2" {} = .ok {} ∧
      InhabitsRecord Grove.usualSchema "Leaf#2" Grove.leaf2Instance ∧
      Grove.leaf2Instance.Regular ∧ Grove.leaf2Instance.PlainSets ∧
      ¬∃ j, (Grove.usualCodec.encode "Leaf#2" Grove.leaf2Instance {}).1.run = some (.ok j) := by
  refine ⟨Grove.usualSchema_declared, Grove.elides, rfl, Grove.inhabits_usualLeaf2,
    Grove.regular_leaf2Instance, Grove.plainSets_leaf2Instance, ?_⟩
  rintro ⟨j, encoded⟩
  have fails : (Grove.usualCodec.encode "Leaf#2" Grove.leaf2Instance {}).1.returnsWith
      (fun _ => true) = false := by
    decide +kernel
  simp [Run.returnsWith, encoded] at fails

end RecordCodec
