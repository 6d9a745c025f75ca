/-!
# Association lists

Finite maps with text keys, in the order the keys were first put in.
-/

namespace Guildhall.Assoc

variable {α : Type}

/-- The map with `value` under `key`, in the key's old place if it has one. -/
def put (key : String) (value : α) : List (String × α) → List (String × α)
  | [] => [(key, value)]
  | (k, v) :: rest => if k = key then (k, value) :: rest else (k, v) :: put key value rest

def remove (key : String) (entries : List (String × α)) : List (String × α) :=
  entries.filter fun entry => entry.1 ≠ key

def sorted (entries : List (String × α)) : List (String × α) :=
  entries.mergeSort fun a b => decide (a.1 ≤ b.1)

def withItem (item : String) (items : List String) : List String :=
  if item ∈ items then items else items ++ [item]

end Guildhall.Assoc
