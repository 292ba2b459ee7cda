import PipelineEditor.Dict
import PipelineEditor.Number.Double

/-!
# JSON values

`Json` is a JSON value whose numbers keep the form they were written in: an integer of at most 64
bits, or a double.  So `1` and `1.0` are different values.  The members of an object are listed;
a value that was read lists them by increasing key, each key once.

## Main definitions

* `Json` — the values, with `get?` and the other views.
* `Json.agree` — comparison of two values up to a comparison of their doubles.
* `Json.same` — equality of values, in which the two zeros agree.
* `Json.set`, `Json.remove` — one member of an object replaced or taken away.
-/

namespace PipelineEditor

/-- A JSON value. -/
inductive Json where
  | null
  | bool (value : Bool)
  | int (value : Int)
  | float (value : Double)
  | string (value : String)
  | array (items : List Json)
  | object (members : List (String × Json))
  deriving Inhabited

namespace Json

/-! ## Comparison -/

mutual

/-- Whether two values have the same shape and the same leaves, doubles compared by `eq`. -/
def agree (eq : Double → Double → Bool) : Json → Json → Bool
  | null, null => true
  | bool a, bool b => a == b
  | int m, int n => m == n
  | float x, float y => eq x y
  | string s, string t => s == t
  | array xs, array ys => agreeItems eq xs ys
  | object ms, object ns => agreeMembers eq ms ns
  | _, _ => false

/-- `agree` on two lists, item by item. -/
def agreeItems (eq : Double → Double → Bool) : List Json → List Json → Bool
  | [], [] => true
  | x :: xs, y :: ys => agree eq x y && agreeItems eq xs ys
  | _, _ => false

/-- `agree` on two member lists, with equal keys. -/
def agreeMembers (eq : Double → Double → Bool) :
    List (String × Json) → List (String × Json) → Bool
  | [], [] => true
  | (k, x) :: ms, (l, y) :: ns => k == l && agree eq x y && agreeMembers eq ms ns
  | _, _ => false

end

mutual

theorem agree_eq_iff (a b : Json) : agree (fun x y => x = y) a b = true ↔ a = b := by
  cases a <;> cases b <;> simp only [agree, beq_iff_eq, decide_eq_true_eq, reduceCtorEq, bool.injEq,
    int.injEq, float.injEq, string.injEq, array.injEq, object.injEq, Bool.false_eq_true]
  · exact agreeItems_eq_iff _ _
  · exact agreeMembers_eq_iff _ _

theorem agreeItems_eq_iff (xs ys : List Json) :
    agreeItems (fun x y => x = y) xs ys = true ↔ xs = ys := by
  cases xs with
  | nil => cases ys <;> simp [agreeItems]
  | cons x xs =>
    cases ys with
    | nil => simp [agreeItems]
    | cons y ys => simp [agreeItems, agree_eq_iff x y, agreeItems_eq_iff xs ys]

theorem agreeMembers_eq_iff (ms ns : List (String × Json)) :
    agreeMembers (fun x y => x = y) ms ns = true ↔ ms = ns := by
  cases ms with
  | nil => cases ns <;> simp [agreeMembers]
  | cons m ms =>
    obtain ⟨k, x⟩ := m
    cases ns with
    | nil => simp [agreeMembers]
    | cons n ns =>
      obtain ⟨l, y⟩ := n
      simp [agreeMembers, agree_eq_iff x y, agreeMembers_eq_iff ms ns, and_assoc]

end

instance : DecidableEq Json := fun a b => decidable_of_iff _ (agree_eq_iff a b)

/-- Equality of values; the doubles `0.0` and `-0.0` are equal. -/
def same (a b : Json) : Bool := agree Double.same a b

/-! ## Views -/

/-- The member of an object under `key`. -/
def get? (key : String) : Json → Option Json
  | object members => Entries.find? key members
  | _ => none

def string? : Json → Option String
  | string s => some s
  | _ => none

def array? : Json → Option (List Json)
  | array items => some items
  | _ => none

def object? : Json → Option (List (String × Json))
  | object members => some members
  | _ => none

/-- The natural number that an integer stands for. -/
def nat? : Json → Option Nat
  | int (.ofNat n) => some n
  | _ => none

/-! ## Updates -/

/-- An object with `value` under `key`; other values have no members and stay as they are. -/
def set (target : Json) (key : String) (value : Json) : Json :=
  match target with
  | object members => object (Entries.insert key value members)
  | other => other

/-- An object with nothing under `key`. -/
def remove (key : String) : Json → Json
  | object members => object (Entries.erase key members)
  | other => other

end Json

end PipelineEditor
