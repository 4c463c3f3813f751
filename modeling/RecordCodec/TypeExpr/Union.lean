import RecordCodec.TypeExpr.Basic

set_option autoImplicit false

/-!
# Unions of types

The union of some members has no duplicate arms and no union or null directly inside it: a null
member makes the whole optional.
-/
namespace RecordCodec.TypeExpr

/-- What a member brings to a union. -/
def alternatives (member : TypeExpr) : List TypeExpr :=
  match member.shape with
  | .union => member.args
  | .optional => null :: member.args
  | _ => [member]

/-- Members in order of first appearance. -/
def distinct (members : List TypeExpr) : List TypeExpr :=
  members.foldl (fun acc ty => if acc.any fun seen => same seen ty then acc else acc ++ [ty]) []

def unionOf (members : List TypeExpr) : TypeExpr :=
  let all := members.flatMap alternatives
  let nullable := all.any isNull
  match distinct (all.filter fun ty => !ty.isNull) with
  | [] => null
  | [only] => if nullable then optional only else only
  | arms => if nullable then optional (union arms) else union arms

end RecordCodec.TypeExpr
