import ShunyaKV.Lib.Decimal

/-!
JSON texts without blanks, escapes and fractions, and a reader of them.

The reader is strict: numbers have no leading zeros, strings have no quotes, backslashes or
control characters in them, and lists no comma at their end.
-/

namespace ShunyaKV.Lib.Json

open ShunyaKV.Lib.Decimal

/-- The value of a text; the fields of an object in their order. -/
inductive Value
  | num (n : ℕ)
  | str (s : List UInt8)
  | arr (items : List Value)
  | obj (fields : List (List UInt8 × Value))

/-- A byte that stands for itself in a string. -/
def IsPlain (b : UInt8) : Prop := b ≠ 34 ∧ b ≠ 92 ∧ 32 ≤ b.toNat

instance (b : UInt8) : Decidable (IsPlain b) := inferInstanceAs (Decidable (_ ∧ _))

/-- A text that stands for itself in a string. -/
def IsText (s : List UInt8) : Prop := ∀ b ∈ s, IsPlain b

instance (s : List UInt8) : Decidable (IsText s) :=
  decidable_of_iff (s.all fun b => decide (IsPlain b)) (by simp [IsText, List.all_eq_true])

def readString : List UInt8 → Option (List UInt8 × List UInt8)
  | [] => none
  | b :: rest =>
    if b = 34 then some ([], rest)
    else if IsPlain b then (readString rest).map fun r => (b :: r.1, r.2)
    else none

def readNumber (text : List UInt8) : Option (Value × List UInt8) :=
  let ds := text.takeWhile (IsDigit ·)
  if ds = [] ∨ ds.head? = some 48 ∧ ds ≠ [48] then none
  else some (.num (value 0 ds), text.dropWhile (IsDigit ·))

def readName : List UInt8 → Option (List UInt8 × List UInt8)
  | 34 :: rest =>
    match readString rest with
    | some (name, 58 :: rest) => some (name, rest)
    | _ => none
  | _ => none

mutual

/-- The value at the front of a text, and what comes after it. -/
def readValue : ℕ → List UInt8 → Option (Value × List UInt8)
  | 0, _ => none
  | _ + 1, [] => none
  | fuel + 1, b :: rest =>
    if b = 34 then (readString rest).map fun r => (.str r.1, r.2)
    else if b = 91 then
      if rest.head? = some 93 then some (.arr [], rest.tail)
      else (readItems fuel rest).map fun r => (.arr r.1, r.2)
    else if b = 123 then
      if rest.head? = some 125 then some (.obj [], rest.tail)
      else (readFields fuel rest).map fun r => (.obj r.1, r.2)
    else readNumber (b :: rest)

def readItems : ℕ → List UInt8 → Option (List Value × List UInt8)
  | 0, _ => none
  | fuel + 1, text =>
    match readValue fuel text with
    | some (v, 93 :: rest) => some ([v], rest)
    | some (v, 44 :: rest) => (readItems fuel rest).map fun r => (v :: r.1, r.2)
    | _ => none

def readFields : ℕ → List UInt8 → Option (List (List UInt8 × Value) × List UInt8)
  | 0, _ => none
  | fuel + 1, text =>
    match readName text with
    | none => none
    | some (name, text) =>
      match readValue fuel text with
      | some (v, 125 :: rest) => some ([(name, v)], rest)
      | some (v, 44 :: rest) => (readFields fuel rest).map fun r => ((name, v) :: r.1, r.2)
      | _ => none

end

/-- The value of a whole text. Each call of the reader takes a byte, or comes after one that
does. -/
def parse (text : List UInt8) : Option Value :=
  match readValue (2 * text.length + 1) text with
  | some (v, []) => some v
  | _ => none

/-! ### Texts -/

def quoted (s : List UInt8) : List UInt8 := 34 :: s ++ [34]

def list (items : List (List UInt8)) : List UInt8 := 91 :: List.intercalate [44] items ++ [93]

def field (name text : List UInt8) : List UInt8 := quoted name ++ 58 :: text

def object (fields : List (List UInt8)) : List UInt8 :=
  123 :: List.intercalate [44] fields ++ [125]

/-- No number goes on in the text. -/
def Ends (rest : List UInt8) : Prop := ∀ b, rest.head? = some b → ¬ IsDigit b

/-- The text is read as the value, whatever comes after it. -/
def Reads (text : List UInt8) (v : Value) : Prop :=
  ∀ fuel rest, 2 * text.length < fuel → Ends rest →
    readValue fuel (text ++ rest) = some (v, rest)

lemma ends_cons {b : UInt8} (hb : ¬ IsDigit b) (rest : List UInt8) : Ends (b :: rest) := by
  rintro c ⟨⟩
  exact hb

/-! #### Numbers and strings -/

lemma readString_append {s : List UInt8} (hs : IsText s) (rest : List UInt8) :
    readString (s ++ 34 :: rest) = some (s, rest) := by
  induction s with
  | nil => rfl
  | cons b s ih =>
    have hb := hs b (by simp)
    rw [List.cons_append, readString, if_neg hb.1, if_pos hb, ih fun c hc => hs c (by simp [hc])]
    rfl

/-- **What is read as a string is plain.** -/
lemma isText_of_readString {text s rest : List UInt8} (h : readString text = some (s, rest)) :
    IsText s := by
  induction text generalizing s with
  | nil => cases h
  | cons c text ih =>
    rw [readString] at h
    split at h
    · cases h
      exact List.forall_mem_nil _
    · split at h
      · next hc =>
        obtain ⟨r, hr, heq⟩ := Option.map_eq_some_iff.mp h
        cases heq
        have htail := ih hr
        intro b hb
        rcases List.mem_cons.mp hb with rfl | hb
        · exact hc
        · exact htail b hb
      · cases h

/-- A numeral has no leading zero. -/
lemma decimal_no_leading_zero {n : ℕ} (h : (decimal n).head? = some 48) : decimal n = [48] := by
  rcases hn : decimal n with _ | ⟨b, ds⟩
  · exact absurd hn (decimal_ne_nil n)
  · rw [hn] at h
    obtain rfl : b = 48 := by simpa using h
    rcases ds with _ | ⟨c, ds⟩
    · rfl
    · exfalso
      have hdigits : ∀ d ∈ c :: ds, IsDigit d := fun d hd =>
        isDigit_of_mem_decimal (n := n) (by rw [hn]; exact List.mem_cons_of_mem _ hd)
      have hval : value 0 (c :: ds) = n := by
        rw [← value_decimal n, hn, value_cons]
        rfl
      have hlt : n < 10 ^ (c :: ds).length := by
        have hlt := value_lt hdigits 0
        rwa [hval, Nat.zero_add, Nat.one_mul] at hlt
      have hlen := Nat.toDigits_length 10 n (c :: ds).length (by simp) hlt
      have heq : (Nat.toDigits 10 n).length = (decimal n).length := by simp [decimal]
      rw [heq, hn] at hlen
      simp at hlen

lemma takeWhile_digits {ds rest : List UInt8} (hds : ∀ b ∈ ds, IsDigit b) (hrest : Ends rest) :
    (ds ++ rest).takeWhile (IsDigit ·) = ds ∧ (ds ++ rest).dropWhile (IsDigit ·) = rest := by
  have hall : ∀ b ∈ ds, decide (IsDigit b) = true := fun b hb => decide_eq_true (hds b hb)
  rw [List.takeWhile_append_of_pos hall, List.dropWhile_append_of_pos hall]
  rcases rest with _ | ⟨b, rest⟩
  · simp
  · have hb := hrest b rfl
    simp [hb]

lemma reads_num (n : ℕ) : Reads (decimal n) (.num n) := by
  intro fuel rest hfuel hrest
  obtain ⟨fuel, rfl⟩ : ∃ f, fuel = f + 1 := ⟨fuel - 1, by omega⟩
  obtain ⟨htake, hdrop⟩ := takeWhile_digits (fun b hb => isDigit_of_mem_decimal hb) hrest
  have hnum : readNumber (decimal n ++ rest) = some (.num n, rest) := by
    rw [readNumber, htake, hdrop, if_neg, value_decimal]
    rintro (hnil | ⟨hhead, hne⟩)
    · exact decimal_ne_nil n hnil
    · exact hne (decimal_no_leading_zero hhead)
  rcases hn : decimal n with _ | ⟨b, ds⟩
  · exact absurd hn (decimal_ne_nil n)
  · have hb : IsDigit b := isDigit_of_mem_decimal (n := n) (by rw [hn]; exact List.mem_cons_self)
    have hne {c : UInt8} (hc : ¬ IsDigit c) : b ≠ c := by
      rintro rfl
      exact hc hb
    rw [hn] at hnum
    rw [List.cons_append, readValue, if_neg (hne (by decide)), if_neg (hne (by decide)),
      if_neg (hne (by decide))]
    exact hnum

lemma reads_str {s : List UInt8} (hs : IsText s) : Reads (quoted s) (.str s) := by
  intro fuel rest hfuel _
  obtain ⟨fuel, rfl⟩ : ∃ f, fuel = f + 1 := ⟨fuel - 1, by omega⟩
  have hstr := readString_append hs rest
  rw [quoted, List.append_assoc, List.cons_append, readValue, if_pos rfl, List.singleton_append,
    hstr]
  rfl

/-! #### Lists and objects -/

lemma readItems_last {fuel : ℕ} {text rest : List UInt8} {v : Value}
    (h : readValue fuel text = some (v, 93 :: rest)) :
    readItems (fuel + 1) text = some ([v], rest) := by
  rw [readItems, h]
  rfl

lemma readItems_comma {fuel : ℕ} {text rest : List UInt8} {v : Value}
    (h : readValue fuel text = some (v, 44 :: rest)) :
    readItems (fuel + 1) text = (readItems fuel rest).map fun r => (v :: r.1, r.2) := by
  rw [readItems, h]
  rfl

lemma readName_field {name : List UInt8} (hname : IsText name) (text : List UInt8) :
    readName (field name text) = some (name, text) := by
  have hstr := readString_append hname (58 :: text)
  rw [field, quoted, List.append_assoc, List.cons_append, List.singleton_append, readName, hstr]
  rfl

lemma readFields_last {fuel : ℕ} {name text rest : List UInt8} {v : Value}
    (hname : IsText name) (h : readValue fuel text = some (v, 125 :: rest)) :
    readFields (fuel + 1) (field name text) = some ([(name, v)], rest) := by
  rw [readFields, readName_field hname]
  dsimp only
  rw [h]
  rfl

lemma readFields_comma {fuel : ℕ} {name text rest : List UInt8} {v : Value}
    (hname : IsText name) (h : readValue fuel text = some (v, 44 :: rest)) :
    readFields (fuel + 1) (field name text) =
      (readFields fuel rest).map fun r => ((name, v) :: r.1, r.2) := by
  rw [readFields, readName_field hname]
  dsimp only
  rw [h]
  rfl

/-- No value begins with a closing bracket. -/
lemma Reads.head_ne {text : List UInt8} {v : Value} (h : Reads text v) (rest : List UInt8) :
    (text ++ rest).head? ≠ some 93 := by
  have hread := h (2 * text.length + 1) [] (Nat.lt_succ_self _) (by rintro c ⟨⟩)
  rcases text with _ | ⟨c, text⟩
  · cases hread
  · intro hhead
    obtain rfl : c = 93 := by simpa using hhead
    rw [List.append_nil, readValue] at hread
    simp [readNumber, IsDigit] at hread

lemma reads_items {t : List UInt8} {v : Value} {texts : List (List UInt8)} {vs : List Value}
    (ht : Reads t v) (h : List.Forall₂ Reads texts vs) {fuel : ℕ} (rest : List UInt8)
    (hfuel : 2 * (List.intercalate [44] (t :: texts)).length + 1 < fuel) :
    readItems fuel (List.intercalate [44] (t :: texts) ++ 93 :: rest) = some (v :: vs, rest) := by
  obtain ⟨fuel, rfl⟩ : ∃ f, fuel = f + 1 := ⟨fuel - 1, by omega⟩
  induction h generalizing t v fuel with
  | nil =>
    rw [List.intercalate_singleton] at hfuel ⊢
    exact readItems_last (ht fuel _ (by omega) (ends_cons (by decide) rest))
  | @cons u w texts vs hu _ ih =>
    rw [List.intercalate_cons_cons] at hfuel ⊢
    simp only [List.length_append, List.length_singleton] at hfuel
    obtain ⟨fuel, rfl⟩ : ∃ f, fuel = f + 1 := ⟨fuel - 1, by omega⟩
    have hrest := ih hu fuel (by omega)
    rw [List.append_assoc, List.append_assoc, List.singleton_append,
      readItems_comma (ht (fuel + 1) _ (by omega) (ends_cons (by decide) _)), hrest,
      Option.map_some]

/-- **A list is read item by item.** -/
lemma reads_list {texts : List (List UInt8)} {vs : List Value} (h : List.Forall₂ Reads texts vs) :
    Reads (list texts) (.arr vs) := by
  intro fuel rest hfuel _
  obtain ⟨fuel, rfl⟩ : ∃ f, fuel = f + 1 := ⟨fuel - 1, by omega⟩
  simp only [list, List.length_append, List.length_cons, List.length_nil] at hfuel
  rw [list, List.append_assoc, List.cons_append, readValue, if_neg (by decide), if_pos rfl,
    List.singleton_append]
  cases h with
  | nil => rfl
  | @cons t v texts vs ht h =>
    have hhead : (List.intercalate [44] (t :: texts) ++ 93 :: rest).head? ≠ some 93 := by
      rcases texts with _ | ⟨u, texts⟩
      · rw [List.intercalate_singleton]
        exact ht.head_ne _
      · rw [List.intercalate_cons_cons, List.append_assoc, List.append_assoc]
        exact ht.head_ne _
    rw [if_neg hhead, reads_items ht h rest (by omega), Option.map_some]

/-- A field as it is written, and as it is read. -/
structure ReadsField (f : List UInt8 × List UInt8) (g : List UInt8 × Value) : Prop where
  name : f.1 = g.1
  plain : IsText f.1
  value : Reads f.2 g.2

lemma reads_fields {f : List UInt8 × List UInt8} {g : List UInt8 × Value}
    {fs : List (List UInt8 × List UInt8)} {gs : List (List UInt8 × Value)} (hf : ReadsField f g)
    (h : List.Forall₂ ReadsField fs gs) {fuel : ℕ} (rest : List UInt8)
    (hfuel : 2 * (List.intercalate [44] ((f :: fs).map fun f => field f.1 f.2)).length + 1 < fuel) :
    readFields fuel (List.intercalate [44] ((f :: fs).map fun f => field f.1 f.2) ++ 125 :: rest) =
      some (g :: gs, rest) := by
  obtain ⟨fuel, rfl⟩ : ∃ f, fuel = f + 1 := ⟨fuel - 1, by omega⟩
  have hlen (f : List UInt8 × List UInt8) :
      (field f.1 f.2).length = f.1.length + f.2.length + 3 := by
    simp only [field, quoted, List.length_append, List.length_cons, List.length_nil]
    omega
  have happend (f : List UInt8 × List UInt8) (rest : List UInt8) :
      field f.1 f.2 ++ rest = field f.1 (f.2 ++ rest) := by simp [field]
  induction h generalizing f g fuel with
  | nil =>
    rw [List.map_singleton, List.intercalate_singleton, hlen] at hfuel
    rw [List.map_singleton, List.intercalate_singleton, happend]
    rw [readFields_last hf.plain (hf.value fuel _ (by omega) (ends_cons (by decide) rest)), hf.name]
  | @cons f' g' fs gs hf' _ ih =>
    rw [List.map_cons, List.map_cons, List.intercalate_cons_cons] at hfuel ⊢
    simp only [List.length_append, List.length_singleton, hlen] at hfuel
    obtain ⟨fuel, rfl⟩ : ∃ f, fuel = f + 1 := ⟨fuel - 1, by omega⟩
    have hrest := ih hf' fuel (by rw [List.map_cons]; omega)
    rw [List.append_assoc, List.append_assoc, List.singleton_append, happend,
      readFields_comma hf.plain (hf.value (fuel + 1) _ (by omega) (ends_cons (by decide) _))]
    rw [List.map_cons] at hrest
    rw [hrest, Option.map_some, hf.name]

/-- **An object is read field by field.** -/
lemma reads_object {fs : List (List UInt8 × List UInt8)} {gs : List (List UInt8 × Value)}
    (h : List.Forall₂ ReadsField fs gs) :
    Reads (object (fs.map fun f => field f.1 f.2)) (.obj gs) := by
  intro fuel rest hfuel _
  obtain ⟨fuel, rfl⟩ : ∃ f, fuel = f + 1 := ⟨fuel - 1, by omega⟩
  simp only [object, List.length_append, List.length_cons, List.length_nil] at hfuel
  rw [object, List.append_assoc, List.cons_append, readValue, if_neg (by decide),
    if_neg (by decide), if_pos rfl, List.singleton_append]
  cases h with
  | nil => rfl
  | @cons f g fs gs hf h =>
    have hhead : (List.intercalate [44] ((f :: fs).map fun f => field f.1 f.2) ++
        125 :: rest).head? ≠ some 125 := by
      rcases fs with _ | ⟨f', fs⟩
      · simp [field, quoted]
      · simp [List.intercalate_cons_cons, field, quoted]
    rw [if_neg hhead, reads_fields hf h rest (by omega), Option.map_some]

lemma Reads.parse {text : List UInt8} {v : Value} (h : Reads text v) : parse text = some v := by
  have hread := h (2 * text.length + 1) [] (Nat.lt_succ_self _) (by rintro c ⟨⟩)
  rw [List.append_nil] at hread
  rw [Json.parse, hread]

/-! ### What is read -/

inductive Plain : Value → Prop
  | num (n : ℕ) : Plain (.num n)
  | str {s : List UInt8} (h : IsText s) : Plain (.str s)
  | arr {items : List Value} (h : ∀ v ∈ items, Plain v) : Plain (.arr items)
  | obj {fields : List (List UInt8 × Value)} (h : ∀ f ∈ fields, Plain f.2) : Plain (.obj fields)

lemma plain_of_readNumber {text rest : List UInt8} {v : Value}
    (h : readNumber text = some (v, rest)) : Plain v := by
  unfold readNumber at h
  dsimp only at h
  split at h
  · cases h
  · cases h
    exact .num _

/-- **Only plain strings are read**, by induction on the fuel for all three readers at once. -/
lemma plain_of_read (fuel : ℕ) :
    (∀ text v rest, readValue fuel text = some (v, rest) → Plain v) ∧
    (∀ text vs rest, readItems fuel text = some (vs, rest) → ∀ v ∈ vs, Plain v) ∧
    (∀ text fs rest, readFields fuel text = some (fs, rest) → ∀ f ∈ fs, Plain f.2) := by
  induction fuel with
  | zero =>
    refine ⟨fun text v rest h => ?_, fun text vs rest h => ?_, fun text fs rest h => ?_⟩
    · simp [readValue] at h
    · simp [readItems] at h
    · simp [readFields] at h
  | succ fuel ih =>
    obtain ⟨ihv, ihi, ihf⟩ := ih
    refine ⟨fun text v rest h => ?_, fun text vs rest h => ?_, fun text fs rest h => ?_⟩
    · rcases text with _ | ⟨b, text⟩
      · simp [readValue] at h
      · rw [readValue] at h
        split at h
        · obtain ⟨r, hr, heq⟩ := Option.map_eq_some_iff.mp h
          cases heq
          exact .str (isText_of_readString hr)
        · split at h
          · split at h
            · cases h
              exact .arr (by simp)
            · obtain ⟨r, hr, heq⟩ := Option.map_eq_some_iff.mp h
              cases heq
              exact .arr (ihi _ _ _ hr)
          · split at h
            · split at h
              · cases h
                exact .obj (by simp)
              · obtain ⟨r, hr, heq⟩ := Option.map_eq_some_iff.mp h
                cases heq
                exact .obj (ihf _ _ _ hr)
            · exact plain_of_readNumber h
    · rw [readItems] at h
      split at h
      · next v rest' hv =>
        cases h
        have hplain := ihv _ _ _ hv
        simpa using hplain
      · next v rest' hv =>
        obtain ⟨r, hr, heq⟩ := Option.map_eq_some_iff.mp h
        cases heq
        exact List.forall_mem_cons.mpr ⟨ihv _ _ _ hv, ihi _ _ _ hr⟩
      · cases h
    · rw [readFields] at h
      split at h
      · cases h
      · split at h
        · next v rest' hv =>
          cases h
          have hplain := ihv _ _ _ hv
          simpa using hplain
        · next v rest' hv =>
          obtain ⟨r, hr, heq⟩ := Option.map_eq_some_iff.mp h
          cases heq
          exact List.forall_mem_cons.mpr ⟨ihv _ _ _ hv, ihf _ _ _ hr⟩
        · cases h

lemma plain_of_parse {text : List UInt8} {v : Value} (h : parse text = some v) : Plain v := by
  unfold parse at h
  split at h
  · next w hw =>
    cases h
    exact (plain_of_read _).1 _ _ _ hw
  · cases h

end ShunyaKV.Lib.Json
