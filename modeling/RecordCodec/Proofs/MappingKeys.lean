import RecordCodec.Proofs.Alike
import RecordCodec.Proofs.FailurePaths

set_option autoImplicit false

/-!
# Keys of mappings

The entries of a mapping are decoded one after another and their keys are not compared. So two keys
of the input that are read as equal keys, such as two spellings of one number, stay two entries: a
lookup finds the first of them, and an encoder writes the last. If no two keys are read as equal
keys, and they have different texts, then the lookups, the number of entries and the encoded object
all tell of the same mapping. Texts are read as themselves, so keys that are texts or of any type
are as different as those of the input.
-/
namespace RecordCodec

open Routine Run Compile
open Converter (Encode Decode mapEntries)

section Mappings
variable {schema : Schema} {bound : Binding} {here : Direct.Position} {ty : TypeExpr}
  {key item c : Converter}

theorem Compile.Compiles.isMapping (h : Compiles schema .builtin bound here ty c)
    (kind : ty.shape.kind = .mapping ∨ ty.shape.kind = .defaultMapping) :
    ∃ key item, Converter.IsMapping key item c ∧
      Compiles schema .builtin bound here ((schema.resolve ty).arg 0) key ∧
      Compiles schema .builtin bound here ((schema.resolve ty).arg 1) item := by
  obtain ⟨handler, handled, rfl | rfl⟩ := handled_mapping schema kind
  · obtain ⟨key, item, rfl, parts⟩ := h.compiledBy handled
    exact ⟨key, item, .inl rfl, parts⟩
  · obtain ⟨key, item, rfl, parts⟩ := h.compiledBy handled
    exact ⟨key, item, .inr ⟨_, rfl⟩, parts⟩

namespace Converter.IsMapping

variable (isMapping : Converter.IsMapping key item c) {calls : Calls Json Instance}
  {calls' : Calls Instance Json} {v j : Json} {i : Instance} {entries : List (Instance × Instance)}
include isMapping

theorem exists_of_decode (h : (c.decode calls v).Returns i) :
    ∃ pairs entries, mapEntries v = .ok pairs ∧ i.entries? = some entries ∧
      (decodeEntries (key.decode calls) (item.decode calls) pairs).Returns entries := by
  rcases isMapping with rfl | ⟨default, rfl⟩ <;>
    (simp only [Converter.decode, Returns.bind_iff, Returns.ofExcept_iff, Returns.pure_iff] at h
     obtain ⟨pairs, isPairs, entries, read, rfl⟩ := h
     exact ⟨pairs, entries, isPairs, rfl, read⟩)

theorem entries?_of_decode_empty (h : (c.decode calls (.object [])).Returns i) :
    i.entries? = some [] := by
  obtain ⟨pairs, entries, isPairs, isEntries, read⟩ := isMapping.exists_of_decode h
  cases isPairs
  cases Returns.pure_iff.1 read
  exact isEntries

theorem encode_returns_iff (h : i.entries? = some entries) :
    (c.encode calls' i).Returns j ↔ ∃ members, j = .object members ∧
      (encodeEntries (key.encode calls') (item.encode calls') entries []).Returns members := by
  rcases isMapping with rfl | ⟨default, rfl⟩ <;>
    simp only [Converter.encode, Converter.encodeMapping, h, Returns.bind_iff, Returns.pure_iff,
      and_comm, eq_comm]

end Converter.IsMapping
end Mappings

def Instance.HasUniqueKeys (v : Instance) : Prop :=
  ∀ entries, v.entries? = some entries → entries.Pairwise fun a b => a.1.same b.1 = false

/-- No two of the keys are read as keys that are alike. -/
def Converter.ReadApart (decode : Decode) (alike : Instance → Instance → Prop)
    (keys : List String) : Prop :=
  keys.Pairwise fun a b => ∀ k l, (decode (.string a)).Returns k → (decode (.string b)).Returns l →
    ¬alike k l

/-- No two of the keys are read as equal keys, as keys with one text, or as keys that are written
under one text. -/
structure Converter.KeysApart (decode : Decode) (encode : Encode) (keys : List String) : Prop where
  unequal : ReadApart decode (fun k l => k.same l = true) keys
  named : ReadApart decode (fun k l => k.keyString = l.keyString) keys
  written : ReadApart decode (fun k l => ∃ j j', (encode k).Returns j ∧ (encode l).Returns j' ∧
    Instance.keyText j = Instance.keyText j') keys

section Keys
variable {key item : Decode} {pairs : List (String × Json)}
  {entries : List (Instance × Instance)}

/-- Keys of the input are read apart if the keys of the entries are. -/
theorem Converter.readApart_iff (decoded : (decodeEntries key item pairs).Returns entries)
    (alike : Instance → Instance → Prop) :
    ReadApart key alike (Assoc.keys pairs) ↔ entries.Pairwise fun a b => ¬alike a.1 b.1 := by
  have read := decodeEntries_returns_iff.1 decoded
  rw [ReadApart, Assoc.keys, List.pairwise_map]
  constructor
  · intro apart
    refine pairwise_of_forall₂ read apart fun a _ b _ e f isEntry isEntry' differ => ?_
    exact differ e.1 f.1 isEntry.1 isEntry'.1
  · intro apart
    refine pairwise_of_forall₂ read.flip apart fun e _ f _ a b isEntry isEntry' differ k l => ?_
    intro isKey isKey'
    cases isEntry.1.symm.trans isKey
    cases isEntry'.1.symm.trans isKey'
    exact differ

end Keys

theorem Instance.mapGet?_eq {v : Instance} {entries : List (Instance × Instance)}
    (h : v.entries? = some entries) (key : String) :
    v.mapGet? key = Assoc.get? key (entries.map fun e => (e.1.keyString, e.2)) := by
  have found : v.mapGet? key = (entries.find? fun e => e.1.keyString == key).map Prod.snd := by
    rw [mapGet?, h]
    cases found : entries.find? fun e => e.1.keyString == key <;> simp [found]
  rw [found]
  clear h found
  induction entries with
  | nil => rfl
  | cons e rest ih =>
    by_cases isKey : e.1.keyString = key
    · simp [Assoc.get?, isKey]
    · simpa [Assoc.get?, isKey] using ih

theorem Instance.mapGet?_of_mem {v : Instance} {entries : List (Instance × Instance)}
    (h : v.entries? = some entries)
    (apart : entries.Pairwise fun a b => ¬a.1.keyString = b.1.keyString)
    {e : Instance × Instance} (mem : e ∈ entries) : v.mapGet? e.1.keyString = some e.2 := by
  rw [mapGet?_eq h]
  refine Assoc.get?_of_mem ?_ (List.mem_map_of_mem mem)
  rw [Assoc.keys, List.map_map]
  exact List.pairwise_map.2 apart

section Written
variable {key item : Encode} {entries : List (Instance × Instance)}
  {members : List (String × Json)}

def Converter.Writes (key item : Encode) (e : Instance × Instance) (m : String × Json) : Prop :=
  (∃ j, (key e.1).Returns j ∧ Instance.keyText j = m.1) ∧ (item e.2).Returns m.2

theorem Converter.exists_of_encodeEntries {out : List (String × Json)}
    (h : (encodeEntries key item entries out).Returns members) :
    ∃ written, List.Forall₂ (Writes key item) entries written ∧
      members = written.foldl (fun acc m => Assoc.insert m.1 m.2 acc) out := by
  induction entries generalizing out with
  | nil => exact ⟨[], .nil, (Returns.pure_iff.1 h).symm⟩
  | cons e rest ih =>
    simp only [encodeEntries, Returns.bind_iff, Returns.mapError_iff] at h
    obtain ⟨first, isKey, second, isItem, h⟩ := h
    obtain ⟨written, others, rfl⟩ := ih h
    exact ⟨(Instance.keyText first, second) :: written, .cons ⟨⟨first, isKey, rfl⟩, isItem⟩ others,
      rfl⟩

theorem Converter.encodeEntries_of_apart (h : (encodeEntries key item entries []).Returns members)
    (apart : entries.Pairwise fun a b => ¬∃ j j', (key a.1).Returns j ∧ (key b.1).Returns j' ∧
      Instance.keyText j = Instance.keyText j') :
    (Assoc.keys members).Nodup ∧ List.Forall₂ (Writes key item) entries members := by
  obtain ⟨written, all, rfl⟩ := exists_of_encodeEntries h
  have distinct : (Assoc.keys written).Nodup := by
    rw [Assoc.keys, List.Nodup, List.pairwise_map]
    refine pairwise_of_forall₂ all apart fun e _ f _ m n isMember isMember' differ same => ?_
    obtain ⟨⟨j, isKey, isText⟩, -⟩ := isMember
    obtain ⟨⟨j', isKey', isText'⟩, -⟩ := isMember'
    exact differ ⟨j, j', isKey, isKey', isText.trans (same.trans isText'.symm)⟩
  have asWritten : written.foldl (fun acc m => Assoc.insert m.1 m.2 acc) [] = written :=
    Assoc.ofList_eq_self distinct
  rw [asWritten]
  exact ⟨distinct, all⟩

end Written

section Texts
variable {p : Primitive} (isText : p = .str ∨ p = .any) {calls : Calls Json Instance}
  {a b : String} {k l : Instance}
  (isKey : ((Converter.scalar p).decode calls (.string a)).Returns k)
include isText isKey

theorem Converter.keyString_of_decode : k.keyString = a := by
  rcases isText with rfl | rfl <;> (cases isKey; rfl)

theorem Converter.keyText_of_encode {calls' : Calls Instance Json} {j : Json}
    (written : ((Converter.scalar p).encode calls' k).Returns j) : Instance.keyText j = a := by
  rcases isText with rfl | rfl <;> (cases isKey; cases written; rfl)

theorem Converter.eq_of_same_keys
    (isKey' : ((Converter.scalar p).decode calls (.string b)).Returns l) (same : k.same l = true) :
    a = b := by
  rcases isText with rfl | rfl
  · cases isKey
    cases isKey'
    simpa [Instance.same] using same
  · cases isKey
    cases isKey'
    simpa [Instance.same, Json.same] using same

end Texts

theorem Converter.keysApart_of_texts {p : Primitive} (isText : p = .str ∨ p = .any)
    (calls : Calls Json Instance) (calls' : Calls Instance Json) {keys : List String}
    (distinct : keys.Nodup) :
    KeysApart ((Converter.scalar p).decode calls) ((Converter.scalar p).encode calls') keys where
  unequal := distinct.imp fun differ _ _ isKey isKey' same =>
    differ (eq_of_same_keys isText isKey isKey' same)
  named := by
    refine distinct.imp fun differ k l isKey isKey' same => differ ?_
    rw [← keyString_of_decode isText isKey, same, keyString_of_decode isText isKey']
  written := by
    refine distinct.imp fun differ k l isKey isKey' alike => differ ?_
    obtain ⟨j, j', isWritten, isWritten', same⟩ := alike
    rw [← keyText_of_encode isText isKey isWritten, same,
      keyText_of_encode isText isKey' isWritten']

/-- Whatever a converter of mappings accepts, an object or a text of pairs: it makes one entry of
each pair. The keys of the entries are unique just if no two keys of the input are read as equal
keys. If they have different texts as well, each entry is found under its key, and the encoder of
the same type writes one member for each entry. This is always so for keys that are texts or of any
type, if those of the input differ. -/
theorem Compile.Compiles.mapping_keys {schema : Schema} {bound bound' : Binding}
    {here here' : Direct.Position} {ty : TypeExpr} {c c' : Converter}
    (reads : Compiles schema .builtin bound here ty c)
    (writes : Compiles schema .builtin bound' here' ty c')
    (kind : ty.shape.kind = .mapping ∨ ty.shape.kind = .defaultMapping)
    {calls : Calls Json Instance} (calls' : Calls Instance Json) {v : Json} {i : Instance}
    (decoded : (c.decode calls v).Returns i) :
    ∃ key key' item' pairs entries,
      Compiles schema .builtin bound here ((schema.resolve ty).arg 0) key ∧
      Compiles schema .builtin bound' here' ((schema.resolve ty).arg 0) key' ∧
      Compiles schema .builtin bound' here' ((schema.resolve ty).arg 1) item' ∧
      mapEntries v = .ok pairs ∧ i.entries? = some entries ∧ entries.length = pairs.length ∧
      (i.HasUniqueKeys ↔
        Converter.ReadApart (key.decode calls) (fun k l => k.same l = true) (Assoc.keys pairs)) ∧
      (Converter.KeysApart (key.decode calls) (key'.encode calls') (Assoc.keys pairs) →
        (∀ e ∈ entries, i.mapGet? e.1.keyString = some e.2) ∧
        ∀ j, (c'.encode calls' i).Returns j → ∃ members, j = .object members ∧
          (Assoc.keys members).Nodup ∧ List.Forall₂
            (Converter.Writes (key'.encode calls') (item'.encode calls')) entries members) ∧
      ((schema.resolve ty).arg 0 = .primitive .str ∨ (schema.resolve ty).arg 0 = .any →
        (Assoc.keys pairs).Nodup →
        Converter.KeysApart (key.decode calls) (key'.encode calls') (Assoc.keys pairs)) := by
  obtain ⟨key, item, isMapping, isKey, -⟩ := reads.isMapping kind
  obtain ⟨key', item', isMapping', isKey', isItem'⟩ := writes.isMapping kind
  obtain ⟨pairs, entries, isPairs, isEntries, read⟩ := isMapping.exists_of_decode decoded
  refine ⟨key, key', item', pairs, entries, isKey, isKey', isItem', isPairs, isEntries,
    (Converter.decodeEntries_returns_iff.1 read).length_eq.symm, ?_, fun apart => ⟨?_, ?_⟩, ?_⟩
  · rw [Converter.readApart_iff read]
    simp [Instance.HasUniqueKeys, isEntries]
  · intro e mem
    exact Instance.mapGet?_of_mem isEntries ((Converter.readApart_iff read _).1 apart.named) mem
  · intro j encoded
    obtain ⟨members, rfl, written⟩ := (isMapping'.encode_returns_iff isEntries).1 encoded
    exact ⟨members, rfl, Converter.encodeEntries_of_apart written
      ((Converter.readApart_iff read _).1 apart.written)⟩
  · intro isText distinct
    -- either direction compiles such a type to the same scalar
    obtain ⟨p, texts, handled⟩ : ∃ p, (p = .str ∨ p = .any) ∧
        Handled schema .builtin ((schema.resolve ty).arg 0) (.scalar p)
          ((schema.resolve ty).arg 0) := by
      rcases isText with isStr | isAny
      · exact ⟨.str, .inl rfl, by rw [isStr]; rfl⟩
      · exact ⟨.any, .inr rfl, by rw [isAny]; rfl⟩
    obtain rfl : key = .scalar p := isKey.compiledBy handled
    obtain rfl : key' = .scalar p := isKey'.compiledBy handled
    exact Converter.keysApart_of_texts texts calls calls' distinct

namespace Limits

def limitsBy (key : Primitive) : TypeExpr := .apply .mapping [.primitive key, .primitive .int]

def converter (key : Primitive) : Converter := .mapping (.scalar key) (.scalar .int)

theorem compiles (key : Primitive) :
    Compiles {} .builtin (fun _ _ _ => False) ⟨{}, none⟩ (limitsBy key) (converter key) := by
  have isMapping : Handled {} .builtin (limitsBy key) .mapping (limitsBy key) := rfl
  have isKey : Handled {} .builtin (.primitive key) (.scalar key) (.primitive key) := by
    cases key <;> rfl
  have isInt : Handled {} .builtin (.primitive .int) (.scalar .int) (.primitive .int) := rfl
  exact .mapping isMapping (.scalar isKey) (.scalar isInt)

def decode (key : Primitive) (v : Json) : Run Instance :=
  (converter key).decode (fun _ _ => ExceptT.mk none) v

def encode (key : Primitive) (v : Instance) : Run Json :=
  (converter key).encode (fun _ _ => ExceptT.mk none) v

def named : Json := .object [("cpu", .ofInt64 2), ("mem", .ofInt64 512)]

def namedLimits : Instance := .map [(.str "cpu", .int 2), (.str "mem", .int 512)]

/-- The number one is spelled in two ways. -/
def numbered : Json := .object [("01", .ofInt64 2), ("1", .ofInt64 512)]

def numberedLimits : Instance := .map [(.int 1, .int 2), (.int 1, .int 512)]

end Limits

theorem Compile.Compiles.mapping_keys_limits :
    (Limits.decode .str Limits.named).Returns Limits.namedLimits ∧
      Limits.namedLimits.HasUniqueKeys ∧
      Limits.namedLimits.mapGet? "mem" = some (.int 512) := by
  have decoded : (Limits.decode .str Limits.named).Returns Limits.namedLimits := rfl
  obtain ⟨_, _, _, pairs, entries, -, -, -, isPairs, isEntries, -, unique, coherent, texts⟩ :=
    mapping_keys (Limits.compiles .str) (Limits.compiles .str) (.inl rfl)
      (fun _ _ => ExceptT.mk none) decoded
  cases isPairs
  cases isEntries
  have apart := texts (.inl rfl) (by decide)
  exact ⟨decoded, unique.2 apart.unequal, (coherent apart).1 (.str "mem", .int 512) (by simp)⟩

/-- Two entries have the key one: a lookup finds the first, and the encoder writes the second. -/
theorem Compile.Compiles.not_mapping_keys_limits :
    Compiles {} .builtin (fun _ _ _ => False) ⟨{}, none⟩ (Limits.limitsBy .int)
        (Limits.converter .int) ∧
      (Limits.decode .int Limits.numbered).Returns Limits.numberedLimits ∧
      ¬Limits.numberedLimits.HasUniqueKeys ∧
      Limits.numberedLimits.mapGet? "1" = some (.int 2) ∧
      (Limits.encode .int Limits.numberedLimits).Returns (.object [("1", .ofInt64 512)]) := by
  refine ⟨Limits.compiles .int, rfl, fun unique => ?_, rfl, rfl⟩
  have different : (Instance.int 1).same (.int 1) = false :=
    List.rel_of_pairwise_cons (unique _ rfl) List.mem_cons_self
  revert different
  simp [Instance.same]

end RecordCodec
