set_option autoImplicit false

/-!
# Association lists in order of first insertion

Writing under a present key keeps its place and takes the new value, so keys stay distinct.
-/
namespace RecordCodec.Assoc

variable {κ α : Type} [DecidableEq κ]

def get? (key : κ) : List (κ × α) → Option α
  | [] => none
  | (k, v) :: rest => if k = key then some v else get? key rest

def contains (key : κ) (entries : List (κ × α)) : Bool := (get? key entries).isSome

def insert (key : κ) (value : α) : List (κ × α) → List (κ × α)
  | [] => [(key, value)]
  | (k, v) :: rest => if k = key then (k, value) :: rest else (k, v) :: insert key value rest

/-- Entries given one after another; the last one under a key wins. -/
def ofList (entries : List (κ × α)) : List (κ × α) :=
  entries.foldl (fun acc (k, v) => insert k v acc) []

def keys (entries : List (κ × α)) : List κ := entries.map Prod.fst

end RecordCodec.Assoc
