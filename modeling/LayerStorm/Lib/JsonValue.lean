import Mathlib

/-!
# Values of a JSON document

The values a program builds and reads back: texts, whole numbers, arrays and objects.  Reading a
field that is not there, or a value of another kind, fails.
-/

namespace LayerStorm.Lib

/-- A value. -/
inductive Json where
  | str (s : String)
  | num (n : ℤ)
  | arr (elements : List Json)
  | obj (fields : List (String × Json))

namespace Json

def fields : Json → List (String × Json)
  | obj fs => fs
  | _ => []

/-- The field of an object; `none` where reading it throws. -/
def field (j : Json) (key : String) : Option Json := j.fields.lookup key

def contains (j : Json) (key : String) : Bool := (j.field key).isSome

def getStr : Json → Option String
  | str s => some s
  | _ => none

def getInt : Json → Option ℤ
  | num n => some n
  | _ => none

def getArr : Json → Option (List Json)
  | arr l => some l
  | _ => none

/-- A number of an object, or a default where there is no such field. -/
def intValue (j : Json) (key : String) (default : ℤ) : Option ℤ :=
  if j.contains key then (j.field key).bind getInt else some default

@[simp] theorem getStr_str (s : String) : (str s).getStr = some s := rfl

@[simp] theorem getInt_num (n : ℤ) : (num n).getInt = some n := rfl

@[simp] theorem getArr_arr (l : List Json) : (arr l).getArr = some l := rfl

@[simp] theorem field_nil (key : String) : (obj []).field key = none := rfl

@[simp] theorem field_cons_self (key : String) (v : Json) (fs : List (String × Json)) :
    (obj ((key, v) :: fs)).field key = some v := by
  simp [field, fields]

@[simp] theorem field_cons_ne {key k : String} (h : key ≠ k) (v : Json) (fs : List (String × Json)) :
    (obj ((k, v) :: fs)).field key = (obj fs).field key := by
  have hne : (key == k) = false := beq_false_of_ne h
  simp [field, fields, List.lookup_cons, hne]

end Json

/-- What is written element by element is read back, if each element is. -/
theorem mapM_map_some {α β : Type*} {read : β → Option α} {write : α → β} {l : List α}
    (h : ∀ a ∈ l, read (write a) = some a) : (l.map write).mapM read = some l := by
  induction l with
  | nil => rfl
  | cons a l ih =>
    rw [List.map_cons, List.mapM_cons, h a List.mem_cons_self,
      ih fun b hb => h b (List.mem_cons_of_mem _ hb)]
    rfl

end LayerStorm.Lib
