import LayerAxes.Json.Reader
import LayerAxes.Json.Writer
import Mathlib.Data.List.DropRight
import Mathlib.Data.List.TakeDrop
import Mathlib.Data.List.TakeWhile

/-!
# Written documents

A document is written as a text from which it is read back, on one line or on
several.  Reading stops just where the written value ends, so that the values
inside a document are read back one after the other.
-/

namespace LayerAxes
namespace Json

/-!
# Strings
-/

theorem hexUnit?_of_lt : forall n, n < 32 ->
    hexUnit? '0' '0' (Nat.digitChar (n / 16)) (Nat.digitChar (n % 16)) = some n := by
  decide

theorem readChars_escapeUnit {c : Char} (h : c.toNat < 32) (rest : List Char) :
    readChars none (escapeUnit c ++ rest) = readChar c (readChars none rest) := by
  have hUnit := hexUnit?_of_lt c.toNat h
  have hHigh : isHighSurrogate c.toNat = false := by
    simp [isHighSurrogate]
    omega
  have hLow : isLowSurrogate c.toNat = false := by
    simp [isLowSurrogate]
    omega
  show readChars none ('\\' :: 'u' :: '0' :: '0' :: _ :: _ :: rest) = _
  simp [readChars, hUnit, hHigh, hLow, Char.ofNat_toNat]

theorem readChars_plain {c : Char} (hQuote : c ≠ '"') (hBackslash : c ≠ '\\')
    (h : 32 ≤ c.toNat) (rest : List Char) :
    readChars none (c :: rest) = readChar c (readChars none rest) := by
  have hPlain : isPlain c = true := by simp [isPlain, h]
  rw [readChars]
  · simp [hPlain, hBackslash]
  · simpa using hQuote
  all_goals simp [hBackslash]

theorem readChars_escape (c : Char) (rest : List Char) :
    readChars none (escape c ++ rest) = readChar c (readChars none rest) := by
  unfold escape
  split
  case h_8 c hQuote hBackslash _ _ _ _ _ =>
    split
    · rename_i h
      exact readChars_escapeUnit h rest
    · rename_i h
      exact readChars_plain hQuote hBackslash (Nat.le_of_not_lt h) rest
  all_goals rfl

theorem readString_quote (s : String) (rest : List Char) :
    readString (s.toList.flatMap escape ++ '"' :: rest) = some (s, rest) := by
  have hChars : forall cs : List Char,
      readChars none (cs.flatMap escape ++ '"' :: rest) = some (cs, rest) := by
    intro cs
    induction cs with
    | nil => rfl
    | cons c cs ih =>
        rw [List.flatMap_cons, List.append_assoc, readChars_escape, ih]
        rfl
  unfold readString
  rw [hChars]
  show some (String.ofList s.toList, rest) = _
  rw [String.ofList_toList]

/-!
# Numbers
-/

theorem isNumberChar_of_isDigit {c : Char} (h : c.isDigit = true) : isNumberChar c = true := by
  simp [isNumberChar, h]

theorem span_cases {α : Type} (p : α -> Bool) (items : List α) :
    (items.span p = (items, [])) ∨
      exists before a after, items.span p = (before, a :: after) ∧ items = before ++ a :: after ∧
        p a = false := by
  rw [List.span_eq_takeWhile_dropWhile]
  have hParts := List.takeWhile_append_dropWhile (p := p) (l := items)
  have hHead := List.head?_dropWhile_not p items
  cases hRest : items.dropWhile p with
  | nil =>
      rw [hRest, List.append_nil] at hParts
      exact Or.inl (by rw [hParts])
  | cons a after =>
      rw [hRest] at hParts hHead
      exact Or.inr ⟨_, a, after, rfl, hParts.symm, hHead⟩

theorem isNumberChar_of_isWholePart {cs : List Char} (h : isWholePart cs = true) :
    cs ≠ [] ∧ forall c, c ∈ cs -> isNumberChar c = true := by
  unfold isWholePart at h
  split at h
  · cases h
  · simp [isNumberChar]
  · rcases Bool.and_eq_true_iff.mp h with ⟨_, hDigits⟩
    refine ⟨List.cons_ne_nil _ _, ?_⟩
    intro c hc
    exact isNumberChar_of_isDigit (List.all_eq_true.mp hDigits c hc)

theorem isNumberChar_of_isExponent {cs : List Char} (h : isExponent cs = true) {c : Char}
    (hc : c ∈ cs) : isNumberChar c = true := by
  unfold isExponent at h
  split at h
  all_goals rcases Bool.and_eq_true_iff.mp h with ⟨_, hDigits⟩
  case h_3 => exact isNumberChar_of_isDigit (List.all_eq_true.mp hDigits c hc)
  all_goals
    rcases List.mem_cons.mp hc with rfl | hc
    · rfl
    · exact isNumberChar_of_isDigit (List.all_eq_true.mp hDigits c hc)

def isUnsigned (cs : List Char) : Bool :=
  match cs.span (· != '.') with
  | (whole, []) => isWholePart whole
  | (whole, _ :: fraction) =>
      isWholePart whole && !fraction.isEmpty && fraction.all Char.isDigit

theorem isMantissa_eq_isUnsigned (cs : List Char) :
    isMantissa cs = isUnsigned (match cs with
      | '-' :: rest => rest
      | _ => cs) :=
  rfl

theorem isNumberChar_of_isUnsigned {cs : List Char} (h : isUnsigned cs = true) :
    cs ≠ [] ∧ forall c, c ∈ cs -> isNumberChar c = true := by
  unfold isUnsigned at h
  rcases span_cases (· != '.') cs with hCut | ⟨whole, point, fraction, hCut, hCs, hPoint⟩
  · rw [hCut] at h
    exact isNumberChar_of_isWholePart h
  · rw [hCut] at h
    simp only [Bool.and_eq_true] at h
    rcases isNumberChar_of_isWholePart h.1.1 with ⟨_, hWhole⟩
    have hDot : point = '.' := by simpa using hPoint
    rw [hCs, hDot]
    refine ⟨by simp, ?_⟩
    intro c hc
    rcases List.mem_append.mp hc with hc | hc
    · exact hWhole c hc
    · rcases List.mem_cons.mp hc with rfl | hc
      · rfl
      · exact isNumberChar_of_isDigit (List.all_eq_true.mp h.2 c hc)

theorem isNumberChar_of_isMantissa {cs : List Char} (h : isMantissa cs = true) :
    cs ≠ [] ∧ forall c, c ∈ cs -> isNumberChar c = true := by
  rw [isMantissa_eq_isUnsigned] at h
  split at h
  · refine ⟨List.cons_ne_nil _ _, ?_⟩
    intro c hc
    rcases List.mem_cons.mp hc with rfl | hc
    · rfl
    · exact (isNumberChar_of_isUnsigned h).2 c hc
  · exact isNumberChar_of_isUnsigned h

theorem isNumberChar_of_isNumber {cs : List Char} (h : isNumber cs = true) :
    cs ≠ [] ∧ forall c, c ∈ cs -> isNumberChar c = true := by
  unfold isNumber at h
  rcases span_cases (fun c => c != 'e' && c != 'E') cs with
    hCut | ⟨mantissa, sign, exponent, hCut, hCs, hSign⟩
  · rw [hCut] at h
    exact isNumberChar_of_isMantissa h
  · rw [hCut] at h
    rcases Bool.and_eq_true_iff.mp h with ⟨hMantissa, hExponent⟩
    rcases isNumberChar_of_isMantissa hMantissa with ⟨_, hChars⟩
    rw [hCs]
    refine ⟨by simp, ?_⟩
    intro c hc
    rcases List.mem_append.mp hc with hc | hc
    · exact hChars c hc
    · rcases List.mem_cons.mp hc with rfl | hc
      · grind [isNumberChar]
      · exact isNumberChar_of_isExponent hExponent hc

/-!
# Blanks
-/

def Blanks (cs : List Char) : Prop :=
  forall c, c ∈ cs -> isSpace c = true

theorem skipSpace_append {blanks : List Char} (h : Blanks blanks) (rest : List Char) :
    skipSpace (blanks ++ rest) = skipSpace rest :=
  List.dropWhile_append_of_pos h

theorem skipSpace_skipSpace (cs : List Char) : skipSpace (skipSpace cs) = skipSpace cs :=
  List.dropWhile_idempotent isSpace cs

theorem skipSpace_cons {c : Char} (h : isSpace c = false) (rest : List Char) :
    skipSpace (c :: rest) = c :: rest :=
  List.dropWhile_cons_of_neg (by simp [h])

theorem readValue_skipSpace (fuel : Nat) (cs : List Char) :
    readValue fuel (skipSpace cs) = readValue fuel cs := by
  cases fuel with
  | zero => rfl
  | succ fuel =>
      unfold readValue
      rw [skipSpace_skipSpace]

theorem readValue_append_blanks {blanks : List Char} (h : Blanks blanks) (fuel : Nat)
    (rest : List Char) : readValue fuel (blanks ++ rest) = readValue fuel rest := by
  rw [← readValue_skipSpace, skipSpace_append h, readValue_skipSpace]

theorem readItems_skipSpace (fuel : Nat) (cs : List Char) :
    readItems fuel (skipSpace cs) = readItems fuel cs := by
  cases fuel with
  | zero => rfl
  | succ fuel =>
      unfold readItems
      rw [readValue_skipSpace]

theorem readMembers_skipSpace (fuel : Nat) (cs : List Char) :
    readMembers fuel (skipSpace cs) = readMembers fuel cs := by
  cases fuel with
  | zero => rfl
  | succ fuel =>
      unfold readMembers
      rw [skipSpace_skipSpace]

structure Style.Blank (style : Style) : Prop where
  lineBreak : forall depth, Blanks (style.lineBreak depth)
  colon : exists blanks, style.colon = ':' :: blanks ∧ Blanks blanks

def Ends (cs : List Char) : Prop :=
  forall c, cs.head? = some c -> isNumberChar c = false

theorem isNumberChar_of_isSpace {c : Char} (h : isSpace c = true) : isNumberChar c = false := by
  simp [isSpace] at h
  rcases h with ((rfl | rfl) | rfl) | rfl <;> rfl

theorem ne_of_isNumberChar {c d : Char} (hd : isNumberChar d = false)
    (hc : isNumberChar c = true) : d ≠ c := by
  rintro rfl
  rw [hd] at hc
  cases hc

theorem isSpace_of_isNumberChar {c : Char} (h : isNumberChar c = true) : isSpace c = false := by
  by_contra hBlank
  exact ne_of_isNumberChar (isNumberChar_of_isSpace (by simpa using hBlank)) h rfl

theorem ends_cons {c : Char} (h : isNumberChar c = false) (rest : List Char) :
    Ends (c :: rest) := by
  intro other hOther
  cases hOther
  exact h

theorem ends_append {blanks rest : List Char} (h : Blanks blanks) (hRest : Ends rest) :
    Ends (blanks ++ rest) := by
  cases blanks with
  | nil => exact hRest
  | cons c blanks =>
      intro other hOther
      cases hOther
      exact isNumberChar_of_isSpace (h c List.mem_cons_self)

theorem readNumber_append {cs : List Char} (h : isNumber cs = true) {rest : List Char}
    (hRest : Ends rest) : readNumber (cs ++ rest) = some (number (String.ofList cs), rest) := by
  rcases isNumberChar_of_isNumber h with ⟨_, hChars⟩
  have hNone : rest.takeWhile isNumberChar = [] ∧ rest.dropWhile isNumberChar = rest := by
    cases rest with
    | nil => exact ⟨rfl, rfl⟩
    | cons c rest =>
        have hc : ¬ isNumberChar c = true := by simp [hRest c rfl]
        exact ⟨List.takeWhile_cons_of_neg hc, List.dropWhile_cons_of_neg hc⟩
  unfold readNumber
  rw [List.takeWhile_append_of_pos hChars, List.dropWhile_append_of_pos hChars, hNone.1, hNone.2,
    List.append_nil, if_pos h]

/-!
# Values
-/

theorem readValue_number {literal : String} (h : isNumber literal.toList = true) (fuel : Nat)
    {rest : List Char} (hRest : Ends rest) :
    readValue (fuel + 1) (literal.toList ++ rest) = some (number literal, rest) := by
  rcases isNumberChar_of_isNumber h with ⟨hNe, hChars⟩
  have hRead := readNumber_append h hRest
  rw [String.ofList_toList] at hRead
  cases hLiteral : literal.toList with
  | nil => exact absurd hLiteral hNe
  | cons c cs =>
      rw [hLiteral] at hRead hChars
      have hc := hChars c List.mem_cons_self
      have hWord : readWord (c :: (cs ++ rest)) = none := by
        have hn : 'n' ≠ c := ne_of_isNumberChar rfl hc
        have ht : 't' ≠ c := ne_of_isNumberChar rfl hc
        have hf : 'f' ≠ c := ne_of_isNumberChar rfl hc
        simp [readWord, List.isPrefixOf?, hn, ht, hf]
      unfold readValue
      rw [List.cons_append, skipSpace_cons (isSpace_of_isNumberChar hc)]
      split
      case h_4 =>
        rw [hWord, ← List.cons_append, hRead]
        rfl
      all_goals
        rename_i hEq
        cases hEq
        cases hc

theorem readValue_string (fuel : Nat) (s : String) (rest : List Char) :
    readValue (fuel + 1) (quote s.toList ++ rest) = some (string s, rest) := by
  have hRead := readString_quote s rest
  unfold readValue quote
  rw [List.append_assoc, List.append_assoc]
  show (readString (s.toList.flatMap escape ++ '"' :: rest)).map _ = _
  rw [hRead]
  rfl

theorem readValue_array {fuel : Nat} {cs : List Char}
    (h : forall rest, skipSpace cs ≠ ']' :: rest) :
    readValue (fuel + 1) ('[' :: cs) =
      (readItems fuel cs).map fun parts => (array parts.1, parts.2) := by
  have hBracket : skipSpace ('[' :: cs) = '[' :: cs := skipSpace_cons rfl cs
  rw [← readItems_skipSpace]
  simp only [readValue, hBracket]

theorem readValue_object {fuel : Nat} {cs rest : List Char} (h : skipSpace cs = '"' :: rest) :
    readValue (fuel + 1) ('\x7b' :: cs) =
      (readMembers fuel cs).map fun parts => (object parts.1, parts.2) := by
  have hBrace : skipSpace ('\x7b' :: cs) = '\x7b' :: cs := skipSpace_cons rfl cs
  rw [← readMembers_skipSpace]
  simp only [readValue, hBrace, h]
  rfl

theorem readItems_last {fuel : Nat} {cs more rest : List Char} {item : Json}
    (h : readValue fuel cs = some (item, more)) (hMore : skipSpace more = ']' :: rest) :
    readItems (fuel + 1) cs = some ([item], rest) := by
  simp [readItems, h, hMore]

theorem readItems_more {fuel : Nat} {cs more next rest : List Char} {item : Json}
    {items : List Json} (h : readValue fuel cs = some (item, more))
    (hMore : skipSpace more = ',' :: next) (hNext : readItems fuel next = some (items, rest)) :
    readItems (fuel + 1) cs = some (item :: items, rest) := by
  simp [readItems, h, hMore, hNext]

def ReadsMember (fuel : Nat) (cs : List Char) (name : String) (value : Json)
    (more : List Char) : Prop :=
  exists quoted colon after, skipSpace cs = '"' :: quoted ∧
    readString quoted = some (name, colon) ∧ skipSpace colon = ':' :: after ∧
    readValue fuel after = some (value, more)

theorem ReadsMember.readMembers_last {fuel : Nat} {cs more rest : List Char} {name : String}
    {value : Json} (h : ReadsMember fuel cs name value more)
    (hMore : skipSpace more = '\x7d' :: rest) :
    readMembers (fuel + 1) cs = some ([(name, value)], rest) := by
  rcases h with ⟨quoted, colon, after, hQuoted, hName, hColon, hValue⟩
  simp [readMembers, hQuoted, hName, hColon, hValue, hMore]

theorem ReadsMember.readMembers_more {fuel : Nat} {cs more next rest : List Char} {name : String}
    {value : Json} {members : List (String × Json)} (h : ReadsMember fuel cs name value more)
    (hMore : skipSpace more = ',' :: next)
    (hNext : readMembers fuel next = some (members, rest)) :
    readMembers (fuel + 1) cs = some ((name, value) :: members, rest) := by
  rcases h with ⟨quoted, colon, after, hQuoted, hName, hColon, hValue⟩
  simp [readMembers, hQuoted, hName, hColon, hValue, hMore, hNext]

/-- A number is legible when its literal is one; all other values are. -/
def isLegible : Json -> Bool
  | number literal => isNumber literal.toList
  | _ => true

theorem exists_write_eq_cons (style : Style) (depth : Nat) {j : Json}
    (h : j.every isLegible = true) :
    exists c cs, write style depth j = c :: cs ∧ isSpace c = false ∧ c ≠ ']' := by
  unfold write
  cases j with
  | null => exact ⟨'n', _, rfl, rfl, by decide⟩
  | bool b =>
      cases b with
      | true => exact ⟨'t', _, rfl, rfl, by decide⟩
      | false => exact ⟨'f', _, rfl, rfl, by decide⟩
  | number literal =>
      rcases isNumberChar_of_isNumber h with ⟨hNe, hChars⟩
      dsimp only
      cases hLiteral : literal.toList with
      | nil => exact absurd hLiteral hNe
      | cons c cs =>
          rw [hLiteral] at hChars
          have hc := hChars c List.mem_cons_self
          exact ⟨c, cs, rfl, isSpace_of_isNumberChar hc, (ne_of_isNumberChar rfl hc).symm⟩
  | string s => exact ⟨'"', _, rfl, rfl, by decide⟩
  | array items => cases items <;> exact ⟨'[', _, rfl, rfl, by decide⟩
  | object members => cases members <;> exact ⟨'\x7b', _, rfl, rfl, by decide⟩

/-!
# What is written is read back

One lemma for every kind of value says that it is read back when its parts are.
The fuel is twice the length of the text, with one to spare for a value and two
for a list of items or members.
-/

section

variable (style : Style)

def ReadsBack (j : Json) : Prop :=
  forall (depth fuel : Nat) (rest : List Char),
    2 * (write style depth j).length ≤ fuel -> Ends rest ->
    readValue (fuel + 1) (write style depth j ++ rest) = some (j, rest)

def ItemsReadBack (items : List Json) : Prop :=
  forall (depth fuel : Nat) (blanks rest : List Char),
    2 * (writeItems style depth items).length + 2 ≤ fuel -> Blanks blanks ->
    readItems fuel (writeItems style depth items ++ (blanks ++ ']' :: rest)) = some (items, rest)

def MembersReadBack (members : List (String × Json)) : Prop :=
  forall (depth fuel : Nat) (blanks rest : List Char),
    2 * (writeMembers style depth members).length + 2 ≤ fuel -> Blanks blanks ->
    readMembers fuel (writeMembers style depth members ++ (blanks ++ '\x7d' :: rest)) =
      some (members, rest)

end

section

variable {style : Style}

theorem ReadsBack.readValue_eq {j : Json} (h : ReadsBack style j) {depth fuel : Nat}
    (hFuel : 2 * (write style depth j).length + 1 ≤ fuel) {rest : List Char} (hRest : Ends rest) :
    readValue fuel (write style depth j ++ rest) = some (j, rest) := by
  cases fuel with
  | zero => exact absurd hFuel (Nat.not_succ_le_zero _)
  | succ fuel => exact h depth fuel rest (Nat.le_of_succ_le_succ hFuel) hRest

theorem readsBack_null : ReadsBack style null :=
  fun _ _ _ _ _ => rfl

theorem readsBack_bool (b : Bool) : ReadsBack style (bool b) := by
  intro depth fuel rest _ _
  cases b <;> rfl

theorem readsBack_number {literal : String} (h : isNumber literal.toList = true) :
    ReadsBack style (number literal) := by
  intro depth fuel rest _ hRest
  unfold write
  exact readValue_number h fuel hRest

theorem readsBack_string (s : String) : ReadsBack style (string s) := by
  intro depth fuel rest _ _
  unfold write
  exact readValue_string fuel s rest

theorem readsBack_array_nil : ReadsBack style (array []) :=
  fun _ _ _ _ _ => rfl

theorem readsBack_object_nil : ReadsBack style (object []) :=
  fun _ _ _ _ _ => rfl

theorem write_array_cons (depth : Nat) (item : Json) (items : List Json) :
    write style depth (array (item :: items)) =
      '[' :: (writeItems style (depth + 1) (item :: items) ++
        (style.lineBreak depth ++ [']'])) := by
  unfold write
  simp

theorem write_object_cons (depth : Nat) (entry : String × Json)
    (members : List (String × Json)) :
    write style depth (object (entry :: members)) =
      '\x7b' :: (writeMembers style (depth + 1) (entry :: members) ++
        (style.lineBreak depth ++ ['\x7d'])) := by
  unfold write
  simp

theorem writeItems_cons (depth : Nat) (item : Json) (items : List Json) :
    writeItems style depth (item :: items) =
      style.lineBreak depth ++ (write style depth item ++
        (if items.isEmpty then [] else ',' :: writeItems style depth items)) := by
  conv => lhs; unfold writeItems
  simp only [List.append_assoc]

theorem writeMembers_cons (depth : Nat) (name : String) (value : Json)
    (members : List (String × Json)) :
    writeMembers style depth ((name, value) :: members) =
      style.lineBreak depth ++ (quote name.toList ++ (style.colon ++ (write style depth value ++
        (if members.isEmpty then [] else ',' :: writeMembers style depth members)))) := by
  conv => lhs; unfold writeMembers
  simp only [List.append_assoc]

theorem readsBack_array_cons (hStyle : style.Blank) {item : Json} {items : List Json}
    (hLegible : item.every isLegible = true) (h : ItemsReadBack style (item :: items)) :
    ReadsBack style (array (item :: items)) := by
  intro depth fuel rest hFuel _
  rw [write_array_cons, List.cons_append, List.append_assoc, List.append_assoc,
    List.singleton_append, readValue_array, h (depth + 1) fuel _ rest ?_ (hStyle.lineBreak depth)]
  · rfl
  · rw [write_array_cons] at hFuel
    simp only [List.length_cons, List.length_append] at hFuel
    omega
  · intro after
    rcases exists_write_eq_cons style (depth + 1) hLegible with ⟨c, cs, hWrite, hSpace, hClose⟩
    rw [writeItems_cons, List.append_assoc, skipSpace_append (hStyle.lineBreak _), hWrite,
      List.cons_append, List.cons_append, skipSpace_cons hSpace]
    intro hEq
    exact hClose (List.cons.inj hEq).1

theorem readsBack_object_cons (hStyle : style.Blank) {entry : String × Json}
    {members : List (String × Json)} (h : MembersReadBack style (entry :: members)) :
    ReadsBack style (object (entry :: members)) := by
  intro depth fuel rest hFuel _
  have hOpen : exists after, skipSpace (writeMembers style (depth + 1) (entry :: members) ++
      (style.lineBreak depth ++ '\x7d' :: rest)) = '"' :: after := by
    rw [writeMembers_cons, List.append_assoc, skipSpace_append (hStyle.lineBreak _)]
    exact ⟨_, rfl⟩
  rcases hOpen with ⟨after, hOpen⟩
  rw [write_object_cons, List.cons_append, List.append_assoc, List.append_assoc,
    List.singleton_append, readValue_object hOpen,
    h (depth + 1) fuel _ rest ?_ (hStyle.lineBreak depth)]
  · rfl
  · rw [write_object_cons] at hFuel
    simp only [List.length_cons, List.length_append] at hFuel
    omega

theorem ReadsBack.readValue_item {item : Json} (h : ReadsBack style item) (hStyle : style.Blank)
    {depth fuel : Nat} (hFuel : 2 * (write style depth item).length + 1 ≤ fuel) {more : List Char}
    (hMore : Ends more) :
    readValue fuel (style.lineBreak depth ++ (write style depth item ++ more)) =
      some (item, more) := by
  rw [readValue_append_blanks (hStyle.lineBreak depth)]
  exact h.readValue_eq hFuel hMore

theorem itemsReadBack_cons (hStyle : style.Blank) {item : Json} {items : List Json}
    (h : ReadsBack style item) (hItems : items ≠ [] -> ItemsReadBack style items) :
    ItemsReadBack style (item :: items) := by
  intro depth fuel blanks rest hFuel hBlanks
  rw [writeItems_cons] at hFuel ⊢
  simp only [List.length_append] at hFuel
  cases fuel with
  | zero => exact absurd hFuel (Nat.not_succ_le_zero _)
  | succ fuel =>
      have hItemFuel : 2 * (write style depth item).length + 1 ≤ fuel := by omega
      rw [List.append_assoc, List.append_assoc]
      cases items with
      | nil =>
          have hEnds : Ends (blanks ++ ']' :: rest) := ends_append hBlanks (ends_cons rfl rest)
          apply readItems_last (h.readValue_item hStyle hItemFuel hEnds)
          rw [skipSpace_append hBlanks]
          rfl
      | cons next items =>
          apply readItems_more (h.readValue_item hStyle hItemFuel (ends_cons rfl _))
          · rfl
          · apply hItems (List.cons_ne_nil _ _) depth fuel blanks rest _ hBlanks
            simp only [List.isEmpty_cons, Bool.false_eq_true, if_false, List.length_cons] at hFuel
            omega

theorem ReadsBack.readsMember {value : Json} (h : ReadsBack style value) (hStyle : style.Blank)
    (name : String) {depth fuel : Nat}
    (hFuel : 2 * (write style depth value).length + 1 ≤ fuel) {more : List Char}
    (hMore : Ends more) :
    ReadsMember fuel (style.lineBreak depth ++ (quote name.toList ++ (style.colon ++
      (write style depth value ++ more)))) name value more := by
  rcases hStyle.colon with ⟨blanks, hColon, hBlanks⟩
  refine ⟨name.toList.flatMap escape ++ '"' :: (style.colon ++ (write style depth value ++ more)),
    _, blanks ++ (write style depth value ++ more), ?_, readString_quote name _, ?_, ?_⟩
  · rw [skipSpace_append (hStyle.lineBreak depth)]
    unfold quote
    rw [List.append_assoc, List.append_assoc]
    rfl
  · rw [hColon]
    rfl
  · rw [readValue_append_blanks hBlanks]
    exact h.readValue_eq hFuel hMore

theorem membersReadBack_cons (hStyle : style.Blank) (name : String) {value : Json}
    {members : List (String × Json)} (h : ReadsBack style value)
    (hMembers : members ≠ [] -> MembersReadBack style members) :
    MembersReadBack style ((name, value) :: members) := by
  intro depth fuel blanks rest hFuel hBlanks
  rw [writeMembers_cons] at hFuel ⊢
  simp only [List.length_append] at hFuel
  cases fuel with
  | zero => exact absurd hFuel (Nat.not_succ_le_zero _)
  | succ fuel =>
      have hValueFuel : 2 * (write style depth value).length + 1 ≤ fuel := by omega
      simp only [List.append_assoc]
      cases members with
      | nil =>
          have hEnds : Ends (blanks ++ '\x7d' :: rest) :=
            ends_append hBlanks (ends_cons rfl rest)
          apply (h.readsMember hStyle name hValueFuel hEnds).readMembers_last
          rw [skipSpace_append hBlanks]
          rfl
      | cons next members =>
          apply (h.readsMember hStyle name hValueFuel (ends_cons rfl _)).readMembers_more
          · rfl
          · apply hMembers (List.cons_ne_nil _ _) depth fuel blanks rest _ hBlanks
            simp only [List.isEmpty_cons, Bool.false_eq_true, if_false, List.length_cons] at hFuel
            omega

mutual

/-- The values that are legible are read back as they were written. -/
theorem readsBack (hStyle : style.Blank) :
    forall j : Json, j.every isLegible = true -> ReadsBack style j
  | .null, _ => readsBack_null
  | .bool b, _ => readsBack_bool b
  | .number _, h => readsBack_number h
  | .string s, _ => readsBack_string s
  | .array [], _ => readsBack_array_nil
  | .array (item :: items), h => by
      have hItems : everyItem isLegible (item :: items) = true := h
      exact readsBack_array_cons hStyle (Bool.and_eq_true_iff.mp hItems).1
        (itemsReadBack hStyle (item :: items) (List.cons_ne_nil _ _) hItems)
  | .object [], _ => readsBack_object_nil
  | .object (entry :: members), h =>
      readsBack_object_cons hStyle
        (membersReadBack hStyle (entry :: members) (List.cons_ne_nil _ _) h)

theorem itemsReadBack (hStyle : style.Blank) :
    forall items : List Json, items ≠ [] -> everyItem isLegible items = true ->
      ItemsReadBack style items
  | [], hNe, _ => absurd rfl hNe
  | item :: items, _, h => by
      rcases Bool.and_eq_true_iff.mp h with ⟨hItem, hItems⟩
      exact itemsReadBack_cons hStyle (readsBack hStyle item hItem)
        fun hNe => itemsReadBack hStyle items hNe hItems

theorem membersReadBack (hStyle : style.Blank) :
    forall members : List (String × Json), members ≠ [] -> everyMember isLegible members = true ->
      MembersReadBack style members
  | [], hNe, _ => absurd rfl hNe
  | (name, value) :: members, _, h => by
      rcases Bool.and_eq_true_iff.mp h with ⟨hValue, hMembers⟩
      exact membersReadBack_cons hStyle name (readsBack hStyle value hValue)
        fun hNe => membersReadBack hStyle members hNe hMembers

end

end

theorem read?_write {style : Style} (hStyle : style.Blank) {j : Json}
    (h : j.every isLegible = true) : read? (j.write style 0) = some j := by
  have hEnds : Ends [] := by
    intro c hc
    cases hc
  have hRead := readsBack hStyle j h 0 (2 * (j.write style 0).length) [] (Nat.le_refl _) hEnds
  rw [List.append_nil] at hRead
  unfold read?
  rw [hRead]
  rfl

theorem blank_compact : Style.compact.Blank where
  lineBreak _ c hc := by cases hc
  colon := ⟨[], rfl, fun c hc => by cases hc⟩

theorem blank_pretty : Style.pretty.Blank where
  lineBreak depth c hc := by
    rcases List.mem_cons.mp hc with rfl | hc
    · rfl
    · rw [List.eq_of_mem_replicate hc]
      rfl
  colon := by
    refine ⟨[' '], rfl, ?_⟩
    intro c hc
    rw [List.mem_singleton.mp hc]
    rfl

theorem parse?_compact {j : Json} (h : j.every isLegible = true) :
    parse? j.compact = some j := by
  unfold parse? compact
  rw [String.toList_ofList]
  exact read?_write blank_compact h

theorem parse?_pretty {j : Json} (h : j.every isLegible = true) :
    parse? j.pretty = some j := by
  unfold parse? pretty
  rw [String.toList_ofList]
  exact read?_write blank_pretty h

end Json
end LayerAxes
