import Mathlib

/-!
# JSON texts

The tool parsers write JSON with `json.dumps(…, ensure_ascii=False)`.  A text is a list of
characters.
-/

namespace LayerStorm.Server

open List

abbrev Text := List Char

/-! ### The grammar -/

/-- White space. -/
def IsWs (t : Text) : Prop := ∀ c ∈ t, c = ' ' ∨ c = '\t' ∨ c = '\n' ∨ c = '\r'

def IsDigits (t : Text) : Prop := t ≠ [] ∧ ∀ c ∈ t, c.isDigit = true

/-- The integer part of a number: no leading zero. -/
def IsIntPart (t : Text) : Prop := IsDigits t ∧ (t = ['0'] ∨ t.head? ≠ some '0')

def IsNumber (t : Text) : Prop :=
  ∃ sign int frac exp : Text, t = sign ++ int ++ frac ++ exp ∧ (sign = [] ∨ sign = ['-']) ∧
    IsIntPart int ∧ (frac = [] ∨ ∃ d, IsDigits d ∧ frac = '.' :: d) ∧
      (exp = [] ∨ ∃ c sg d, (c = 'e' ∨ c = 'E') ∧ (sg = [] ∨ sg = ['+'] ∨ sg = ['-']) ∧
        IsDigits d ∧ exp = c :: (sg ++ d))

/-- The inside of a string. -/
inductive IsChars : Text → Prop
  | nil : IsChars []
  | plain {c : Char} {t : Text} : c ≠ '"' → c ≠ '\\' → 32 ≤ c.toNat → IsChars t →
      IsChars (c :: t)
  | escape {c : Char} {t : Text} : c ∈ ['"', '\\', '/', 'b', 'f', 'n', 'r', 't'] → IsChars t →
      IsChars ('\\' :: c :: t)
  | code {h t : Text} : h.length = 4 → (∀ c ∈ h, c.isDigit = true ∨ c ∈ ['a', 'b', 'c', 'd',
      'e', 'f', 'A', 'B', 'C', 'D', 'E', 'F']) → IsChars t → IsChars ('\\' :: 'u' :: (h ++ t))

def IsString (t : Text) : Prop := ∃ s, IsChars s ∧ t = '"' :: (s ++ ['"'])

mutual

inductive IsValue : Text → Prop
  | null : IsValue ['n', 'u', 'l', 'l']
  | true : IsValue ['t', 'r', 'u', 'e']
  | false : IsValue ['f', 'a', 'l', 's', 'e']
  | number {t : Text} : IsNumber t → IsValue t
  | string {t : Text} : IsString t → IsValue t
  | emptyArray {w : Text} : IsWs w → IsValue ('[' :: (w ++ [']']))
  | array {t : Text} : IsElements t → IsValue ('[' :: (t ++ [']']))
  | object {t : Text} : IsObject t → IsValue t

inductive IsElements : Text → Prop
  | one {w t w' : Text} : IsWs w → IsValue t → IsWs w' → IsElements (w ++ t ++ w')
  | more {l w t w' : Text} : IsElements l → IsWs w → IsValue t → IsWs w' →
      IsElements (l ++ ',' :: (w ++ t ++ w'))

inductive IsMembers : Text → Prop
  | one {w k w₁ w₂ v w₃ : Text} : IsWs w → IsString k → IsWs w₁ → IsWs w₂ → IsValue v → IsWs w₃ →
      IsMembers (w ++ k ++ w₁ ++ ':' :: (w₂ ++ v ++ w₃))
  | more {l w k w₁ w₂ v w₃ : Text} : IsMembers l → IsWs w → IsString k → IsWs w₁ → IsWs w₂ →
      IsValue v → IsWs w₃ → IsMembers (l ++ ',' :: (w ++ k ++ w₁ ++ ':' :: (w₂ ++ v ++ w₃)))

inductive IsObject : Text → Prop
  | empty {w : Text} : IsWs w → IsObject ('{' :: (w ++ ['}']))
  | members {t : Text} : IsMembers t → IsObject ('{' :: (t ++ ['}']))

end

/-! ### Values -/

/-- A float: a finite one is written as a number. -/
inductive PyFloat
  | nan
  | infinity (negative : Bool)
  | finite (repr : { t : Text // IsNumber t })

inductive Value
  | null
  | bool (b : Bool)
  | int (z : ℤ)
  | float (x : PyFloat)
  | str (t : Text)
  | list (l : List Value)
  | dict (m : List (Text × Value))

def hexDigit (n : ℕ) : Char := if n < 10 then Char.ofNat (48 + n) else Char.ofNat (87 + n)

/-- How `json.dumps` writes a character of a string. -/
def escapeChar (c : Char) : Text :=
  if c = '"' then ['\\', '"']
  else if c = '\\' then ['\\', '\\']
  else if c = '\n' then ['\\', 'n']
  else if c = '\r' then ['\\', 'r']
  else if c = '\t' then ['\\', 't']
  else if c.toNat = 8 then ['\\', 'b']
  else if c.toNat = 12 then ['\\', 'f']
  else if c.toNat < 32 then
    ['\\', 'u', '0', '0', hexDigit (c.toNat / 16), hexDigit (c.toNat % 16)]
  else [c]

def jsonEscape (t : Text) : Text := t.flatMap escapeChar

/-- A string as it is written. -/
def quote (t : Text) : Text := '"' :: (jsonEscape t ++ ['"'])

/-- The decimal digits of a natural number. -/
def natText (n : ℕ) : Text :=
  if n = 0 then ['0'] else (Nat.digits 10 n).reverse.map fun d => Char.ofNat (48 + d)

/-- An integer as it is written. -/
def intText : ℤ → Text
  | .ofNat n => natText n
  | .negSucc n => '-' :: natText (n + 1)

def PyFloat.text : PyFloat → Text
  | .nan => ['N', 'a', 'N']
  | .infinity false => ['I', 'n', 'f', 'i', 'n', 'i', 't', 'y']
  | .infinity true => ['-', 'I', 'n', 'f', 'i', 'n', 'i', 't', 'y']
  | .finite repr => repr.1

mutual

/-- `json.dumps(…, ensure_ascii=False)`. -/
def dumps : Value → Text
  | .null => ['n', 'u', 'l', 'l']
  | .bool true => ['t', 'r', 'u', 'e']
  | .bool false => ['f', 'a', 'l', 's', 'e']
  | .int z => intText z
  | .float x => x.text
  | .str t => quote t
  | .list l => '[' :: (dumpsList l ++ [']'])
  | .dict m => '{' :: (dumpsDict m ++ ['}'])

/-- The elements of a list as they are written. -/
def dumpsList : List Value → Text
  | [] => []
  | v :: l => dumps v ++ dumpsTail l

/-- The elements behind the first as they are written. -/
def dumpsTail : List Value → Text
  | [] => []
  | v :: l => [',', ' '] ++ dumps v ++ dumpsTail l

/-- A member of a dict as it is written. -/
def dumpsMember : Text × Value → Text
  | (k, v) => quote k ++ [':', ' '] ++ dumps v

/-- The members of a dict as they are written. -/
def dumpsDict : List (Text × Value) → Text
  | [] => []
  | kv :: m => dumpsMember kv ++ dumpsDictTail m

/-- The members behind the first as they are written. -/
def dumpsDictTail : List (Text × Value) → Text
  | [] => []
  | kv :: m => [',', ' '] ++ dumpsMember kv ++ dumpsDictTail m

end

mutual

/-- `_json_finite`: the value holds no `inf` and no `nan`. -/
def jsonFinite : Value → Bool
  | .float (.finite _) => true
  | .float _ => false
  | .list l => finiteList l
  | .dict m => finiteDict m
  | _ => true

def finiteList : List Value → Bool
  | [] => true
  | v :: l => jsonFinite v && finiteList l

def finiteMember : Text × Value → Bool
  | (_, v) => jsonFinite v

def finiteDict : List (Text × Value) → Bool
  | [] => true
  | kv :: m => finiteMember kv && finiteDict m

end

/-! ### Strings -/

theorem jsonEscape_append (t u : Text) : jsonEscape (t ++ u) = jsonEscape t ++ jsonEscape u :=
  flatMap_append

@[simp] theorem jsonEscape_nil : jsonEscape [] = [] := rfl

theorem hexDigit_spec : ∀ n < 16, (hexDigit n).isDigit = true ∨
    hexDigit n ∈ ['a', 'b', 'c', 'd', 'e', 'f', 'A', 'B', 'C', 'D', 'E', 'F'] := by
  decide

theorem isChars_append {t u : Text} (ht : IsChars t) (hu : IsChars u) : IsChars (t ++ u) := by
  induction ht with
  | nil => exact hu
  | plain h₁ h₂ h₃ _ ih => exact IsChars.plain h₁ h₂ h₃ ih
  | escape h _ ih => exact IsChars.escape h ih
  | code h₁ h₂ _ ih =>
    rw [cons_append, cons_append, append_assoc]
    exact IsChars.code h₁ h₂ ih

theorem isChars_escapeChar (c : Char) : IsChars (escapeChar c) := by
  unfold escapeChar
  iterate 7
    split
    · exact IsChars.escape (by decide) IsChars.nil
  split
  · next hlt =>
    have hcode : ∀ d ∈ ['0', '0', hexDigit (c.toNat / 16), hexDigit (c.toNat % 16)],
        d.isDigit = true ∨ d ∈ ['a', 'b', 'c', 'd', 'e', 'f', 'A', 'B', 'C', 'D', 'E', 'F'] := by
      intro d hd
      simp only [mem_cons, not_mem_nil, or_false] at hd
      rcases hd with rfl | rfl | rfl | rfl
      · exact .inl rfl
      · exact .inl rfl
      · exact hexDigit_spec _ (by omega)
      · exact hexDigit_spec _ (by omega)
    exact IsChars.code (h := ['0', '0', hexDigit (c.toNat / 16), hexDigit (c.toNat % 16)])
      (t := []) rfl hcode IsChars.nil
  · next h₁ h₂ _ _ _ _ _ h₈ => exact IsChars.plain h₁ h₂ (by omega) IsChars.nil

theorem isChars_jsonEscape (t : Text) : IsChars (jsonEscape t) := by
  induction t with
  | nil => exact IsChars.nil
  | cons c t ih => exact isChars_append (isChars_escapeChar c) ih

theorem isString_quote (t : Text) : IsString (quote t) := ⟨_, isChars_jsonEscape t, rfl⟩

theorem mem_escapeChar {c d : Char} (hd : d = '>' ∨ d = '"') (h : d ∈ escapeChar c) : d = c := by
  have hhex : ∀ n < 16, d ≠ hexDigit n := by
    intro n hn heq
    rcases hd with rfl | rfl
    · revert n
      decide
    · revert n
      decide
  unfold escapeChar at h
  split at h
  · next hc =>
    subst hc
    rcases hd with rfl | rfl
    · simp at h
    · rfl
  iterate 6
    split at h
    · rcases hd with rfl | rfl <;> simp at h
  split at h
  · simp only [mem_cons, not_mem_nil, or_false] at h
    rcases h with h | h | h | h | h | h
    · rcases hd with rfl | rfl <;> cases h
    · rcases hd with rfl | rfl <;> cases h
    · rcases hd with rfl | rfl <;> cases h
    · rcases hd with rfl | rfl <;> cases h
    · exact absurd h (hhex _ (by omega))
    · exact absurd h (hhex _ (by omega))
  · exact mem_singleton.1 h

theorem quote_mem_jsonEscape {t : Text} (h : '"' ∈ jsonEscape t) : '"' ∈ t := by
  obtain ⟨c, hc, hmem⟩ := mem_flatMap.1 h
  rwa [mem_escapeChar (.inr rfl) hmem]

theorem angle_mem_jsonEscape {t : Text} : '>' ∈ jsonEscape t ↔ '>' ∈ t := by
  constructor
  · intro h
    obtain ⟨c, hc, hmem⟩ := mem_flatMap.1 h
    rwa [mem_escapeChar (.inl rfl) hmem]
  · exact fun h => mem_flatMap.2 ⟨'>', h, by decide⟩

/-! ### Numbers -/

theorem isWs_nil : IsWs [] := fun _ hc => absurd hc not_mem_nil

theorem isWs_space : IsWs [' '] := by
  intro c hc
  rw [mem_singleton] at hc
  exact .inl hc

theorem digit_spec : ∀ d < 10, (Char.ofNat (48 + d)).isDigit = true ∧
    (Char.ofNat (48 + d) = '0' → d = 0) := by
  decide

theorem isIntPart_natText (n : ℕ) : IsIntPart (natText n) := by
  unfold natText
  split
  · exact ⟨⟨by simp, by simp⟩, .inl rfl⟩
  next hn =>
  have hne : Nat.digits 10 n ≠ [] := Nat.digits_ne_nil_iff_ne_zero.2 hn
  refine ⟨⟨by simpa using hne, ?_⟩, .inr ?_⟩
  · intro c hc
    rw [mem_map] at hc
    obtain ⟨d, hd, rfl⟩ := hc
    exact (digit_spec d (Nat.digits_lt_base (by decide) (mem_reverse.1 hd))).1
  · rw [head?_map, head?_reverse, getLast?_eq_some_getLast hne]
    intro h
    have hlast := Nat.digits_lt_base (by decide) (getLast_mem hne)
    simp only [Option.map_some, Option.some.injEq] at h
    exact Nat.getLast_digit_ne_zero 10 hn ((digit_spec _ hlast).2 h)

theorem isNumber_intText (z : ℤ) : IsNumber (intText z) := by
  cases z with
  | ofNat n =>
    exact ⟨[], natText n, [], [], by simp [intText], .inl rfl, isIntPart_natText n, .inl rfl,
      .inl rfl⟩
  | negSucc n =>
    exact ⟨['-'], natText (n + 1), [], [], by simp [intText], .inr rfl,
      isIntPart_natText (n + 1), .inl rfl, .inl rfl⟩

/-! ### Written values -/

theorem isMembers_member {k v : Text} (hv : IsValue v) : IsMembers (quote k ++ [':', ' '] ++ v) ∧
      ∀ acc, IsMembers acc → IsMembers (acc ++ [',', ' '] ++ (quote k ++ [':', ' '] ++ v)) := by
  constructor
  · have h := IsMembers.one isWs_nil (isString_quote k) isWs_nil isWs_space hv isWs_nil
    simpa using h
  · intro acc hacc
    have h := IsMembers.more hacc isWs_space (isString_quote k) isWs_nil isWs_space hv isWs_nil
    simpa using h

theorem isElements_element {v : Text} (hv : IsValue v) :
    IsElements v ∧ ∀ acc, IsElements acc → IsElements (acc ++ [',', ' '] ++ v) := by
  constructor
  · have h := IsElements.one isWs_nil hv isWs_nil
    simpa using h
  · intro acc hacc
    have h := IsElements.more hacc isWs_space hv isWs_nil
    simpa using h

mutual

/-- **What is written of a finite value is JSON.** -/
theorem isValue_dumps : ∀ v : Value, jsonFinite v = true → IsValue (dumps v)
  | .null, _ => IsValue.null
  | .bool true, _ => IsValue.true
  | .bool false, _ => IsValue.false
  | .int z, _ => IsValue.number (isNumber_intText z)
  | .float (.finite repr), _ => IsValue.number repr.2
  | .float .nan, h => by cases h
  | .float (.infinity _), h => by cases h
  | .str t, _ => IsValue.string (isString_quote t)
  | .list l, h => by
    cases l with
    | nil => exact IsValue.emptyArray isWs_nil
    | cons v l =>
      rw [jsonFinite, finiteList, Bool.and_eq_true] at h
      exact IsValue.array
        (isElements_dumpsTail l h.2 _ (isElements_element (isValue_dumps v h.1)).1)
  | .dict m, h => by
    cases m with
    | nil => exact IsValue.object (IsObject.empty isWs_nil)
    | cons kv m =>
      rw [jsonFinite, finiteDict, Bool.and_eq_true] at h
      exact IsValue.object (IsObject.members
        (isMembers_dumpsDictTail m h.2 _ (isMembers_dumpsMember kv h.1).1))

theorem isElements_dumpsTail : ∀ l : List Value, finiteList l = true → ∀ acc, IsElements acc →
    IsElements (acc ++ dumpsTail l)
  | [], _, acc, hacc => by simpa [dumpsTail] using hacc
  | v :: l, h, acc, hacc => by
    rw [finiteList, Bool.and_eq_true] at h
    have hmore := (isElements_element (isValue_dumps v h.1)).2 acc hacc
    have hres := isElements_dumpsTail l h.2 _ hmore
    simpa [dumpsTail] using hres

theorem isMembers_dumpsMember : ∀ kv : Text × Value, finiteMember kv = true →
    IsMembers (dumpsMember kv) ∧
      ∀ acc, IsMembers acc → IsMembers (acc ++ [',', ' '] ++ dumpsMember kv)
  | (_, v), h => isMembers_member (isValue_dumps v h)

theorem isMembers_dumpsDictTail : ∀ m : List (Text × Value), finiteDict m = true →
    ∀ acc, IsMembers acc → IsMembers (acc ++ dumpsDictTail m)
  | [], _, acc, hacc => by simpa [dumpsDictTail] using hacc
  | kv :: m, h, acc, hacc => by
    rw [finiteDict, Bool.and_eq_true] at h
    have hmore := (isMembers_dumpsMember kv h.1).2 acc hacc
    have hres := isMembers_dumpsDictTail m h.2 _ hmore
    simpa [dumpsDictTail] using hres

end

end LayerStorm.Server
