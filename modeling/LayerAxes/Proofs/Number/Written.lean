import LayerAxes.Number.Shortest
import LayerAxes.Proofs.Number.Order
import LayerAxes.Proofs.Number.Shortest
import LayerAxes.Proofs.Text.Digits

/-!
# Written numbers

A decimal is set out with a point at its place, or with one digit before the
point and an exponent.  Either way it is read with the rank it had, the zeros
that fill its places being the only difference.

So every finite number reads back from its text, its sign included.
-/

namespace LayerAxes
namespace Decimal

open Text

/-!
# Digits, a point and an exponent
-/

theorem spanSign_of_digit {c : Char} (h : c.isDigit = true) (cs : List Char) :
    spanSign (c :: cs) = (false, c :: cs) := by
  unfold spanSign
  split
  · rename_i hText
    cases hText
    cases h
  · rename_i hText
    cases hText
    cases h
  · rfl

theorem readExponent?_digits (power : Int) :
    readExponent? ('e' :: ((if power < 0 then ['-'] else []) ++ Text.digits power.natAbs)) =
      some power := by
  unfold readExponent?
  dsimp only
  rw [if_pos (Or.inl rfl)]
  by_cases hNegative : power < 0
  · have hSign : spanSign ('-' :: Text.digits power.natAbs) = (true, Text.digits power.natAbs) :=
      rfl
    rw [if_pos hNegative, List.singleton_append, hSign]
    dsimp only
    rw [whole?_digits]
    show some (-(power.natAbs : Int)) = some power
    rw [Int.ofNat_natAbs_of_nonpos (Int.le_of_lt hNegative), Int.neg_neg]
  · have hSign : spanSign (Text.digits power.natAbs) = (false, Text.digits power.natAbs) := by
      rcases exists_digits_eq_cons power.natAbs with ⟨c, cs, hDigits, hDigit⟩
      rw [hDigits]
      exact spanSign_of_digit hDigit cs
    rw [if_neg hNegative, List.nil_append, hSign]
    dsimp only
    rw [whole?_digits]
    show some (power.natAbs : Int) = some power
    rw [Int.natAbs_of_nonneg (Int.not_lt.mp hNegative)]

section

variable {ws fs rest : List Char} {exponent : Int}

theorem read?_of_exponent (hDigits : AllDigits ws) (hNe : ws ≠ [])
    (hRest : readExponent? ('e' :: rest) = some exponent) :
    read? (ws ++ 'e' :: rest) = some ⟨digitsValue ws, exponent⟩ := by
  have hSpan : spanDigits (ws ++ 'e' :: rest) = (ws, 'e' :: rest) := by
    apply spanDigits_append hDigits
    intro c hc
    cases hc
    rfl
  have hFraction : spanFraction ('e' :: rest) = ([], 'e' :: rest) := rfl
  unfold read?
  rw [hSpan]
  dsimp only
  rw [hFraction, hRest]
  simp [hNe]

theorem read?_of_point (hWhole : AllDigits ws) (hFraction : AllDigits fs) (hNe : ws ≠ [])
    (hHead : forall c, rest.head? = some c -> c.isDigit = false)
    (hRest : readExponent? rest = some exponent) :
    read? (ws ++ '.' :: (fs ++ rest)) =
      some ⟨digitsValue (ws ++ fs), exponent - fs.length⟩ := by
  have hFront : spanDigits (ws ++ '.' :: (fs ++ rest)) = (ws, '.' :: (fs ++ rest)) := by
    apply spanDigits_append hWhole
    intro c hc
    cases hc
    rfl
  have hBack : spanFraction ('.' :: (fs ++ rest)) = (fs, rest) :=
    spanDigits_append hFraction hHead
  unfold read?
  rw [hFront]
  dsimp only
  rw [hBack, hRest]
  simp [hNe]

theorem read?_of_places (hWhole : AllDigits ws) (hFraction : AllDigits fs) (hNe : ws ≠ []) :
    read? (ws ++ '.' :: fs) = some ⟨digitsValue (ws ++ fs), -fs.length⟩ := by
  have hHead : forall c, ([] : List Char).head? = some c -> c.isDigit = false :=
    fun c hc => nomatch hc
  have hRead := read?_of_point hWhole hFraction hNe hHead rfl
  rw [List.append_nil, Int.zero_sub] at hRead
  exact hRead

end

/-!
# Decimals set out
-/

section

variable {ds : List Char}

theorem read?_leadingZeros (hDigits : AllDigits ds) (k : Nat) :
    read? (['0', '.'] ++ List.replicate k '0' ++ ds) =
      some ⟨digitsValue ds, -(k + ds.length : Nat)⟩ := by
  have hZero : AllDigits ['0'] := by decide
  have hRead := read?_of_places hZero ((allDigits_zeros k).append hDigits)
    (List.cons_ne_nil '0' [])
  have hValue := digitsValue_zeros_append (k + 1) ds
  rw [List.length_append, List.length_replicate] at hRead
  rw [List.replicate_succ, List.cons_append] at hValue
  rw [← hValue]
  exact hRead

theorem read?_filled (hDigits : AllDigits ds) (hNe : ds ≠ []) (k : Nat) :
    read? (ds ++ List.replicate k '0' ++ ['.', '0']) =
      some ⟨digitsValue ds * 10 ^ (k + 1), -1⟩ := by
  have hZero : AllDigits ['0'] := by decide
  have hRead := read?_of_places (hDigits.append (allDigits_zeros k)) hZero
    (List.append_ne_nil_of_left_ne_nil hNe _)
  have hValue := digitsValue_append_zeros ds (k + 1)
  rw [List.replicate_succ', ← List.append_assoc] at hValue
  rw [← hValue]
  exact hRead

theorem read?_divided (hDigits : AllDigits ds) {k : Nat} (hFront : ds.take k ≠ []) :
    read? (ds.take k ++ ['.'] ++ ds.drop k) =
      some ⟨digitsValue ds, -(ds.length - k : Nat)⟩ := by
  have hParts := List.take_append_drop k ds
  have hSides : AllDigits (ds.take k) ∧ AllDigits (ds.drop k) := by
    apply AllDigits.of_append
    rw [hParts]
    exact hDigits
  have hRead := read?_of_places hSides.1 hSides.2 hFront
  rw [hParts, List.length_drop] at hRead
  rw [List.append_assoc]
  exact hRead

theorem read?_positional (hDigits : AllDigits ds) (hNe : ds ≠ []) (hPos : 0 < digitsValue ds)
    (place : Int) :
    exists d, read? (positional ds place) = some d ∧
      d.rank = rank ⟨digitsValue ds, place - ds.length⟩ := by
  unfold positional
  by_cases hBelow : place ≤ 0
  · have hExponent : -((-place).toNat + ds.length : Nat) = place - ds.length := by omega
    rw [if_pos hBelow, read?_leadingZeros hDigits, hExponent]
    exact ⟨_, rfl, rfl⟩
  · rw [if_neg hBelow]
    by_cases hWhole : (ds.length : Int) ≤ place
    · -- The zeros up to the point and the one after it belong to the digits that are read.
      have hExponent : (-1 : Int) =
          place - ds.length - ((place - ds.length).toNat + 1 : Nat) := by omega
      rw [if_pos hWhole, read?_filled hDigits hNe, hExponent]
      exact ⟨_, rfl, rank_mul_pow hPos _ _⟩
    · have hFront : ds.take place.toNat ≠ [] := by
        rw [Ne, List.take_eq_nil_iff, not_or]
        exact ⟨by omega, hNe⟩
      have hExponent : -(ds.length - place.toNat : Nat) = place - ds.length := by omega
      rw [if_neg hWhole, read?_divided hDigits hFront, hExponent]
      exact ⟨_, rfl, rfl⟩

theorem read?_scientific (hDigits : AllDigits ds) (hNe : ds ≠ []) (power : Int) :
    read? (scientific ds power) = some ⟨digitsValue ds, power + 1 - ds.length⟩ := by
  have hExponent := readExponent?_digits power
  have hMark : forall cs c, ('e' :: cs).head? = some c -> c.isDigit = false := by
    intro cs c hc
    cases hc
    rfl
  unfold scientific
  dsimp only
  rcases ds with _ | ⟨c, fs⟩
  · exact absurd rfl hNe
  · by_cases hOne : (c :: fs).length ≤ 1
    · have hNone : fs = [] := by
        rw [List.length_cons] at hOne
        exact List.length_eq_zero_iff.mp (by omega)
      subst hNone
      have hPower : power + 1 - (([c] : List Char).length : Int) = power := by
        rw [List.length_singleton]
        omega
      have hRead := read?_of_exponent hDigits hNe hExponent
      rw [if_pos hOne, hPower, ← hRead]
      simp only [List.cons_append, List.nil_append]
    · have hSides := AllDigits.of_append (show AllDigits ([c] ++ fs) from hDigits)
      have hPower : power + 1 - ((c :: fs).length : Int) = power - fs.length := by
        rw [List.length_cons]
        omega
      have hRead := read?_of_point hSides.1 hSides.2 (by simp) (hMark _) hExponent
      simp only [List.cons_append, List.nil_append] at hRead
      rw [if_neg hOne, hPower, ← hRead]
      simp only [List.append_assoc, List.take_succ_cons, List.take_zero, List.drop_succ_cons,
        List.drop_zero, List.cons_append, List.nil_append]

theorem read?_render (layout : Layout) {d : Decimal} (h : d.digits ≠ 0) :
    exists e, read? (d.render layout) = some e ∧ e.rank = d.rank := by
  have hDigits := allDigits_digits d.digits
  have hNe := digits_ne_nil d.digits
  have hValue := digitsValue_digits d.digits
  have hPlace : ((Text.digits d.digits).length + d.exponent - 1 + 1 : Int) -
      (Text.digits d.digits).length = d.exponent := by omega
  unfold render
  dsimp only
  split
  · rcases read?_positional hDigits hNe (by omega)
      ((Text.digits d.digits).length + d.exponent - 1 + 1) with ⟨e, hRead, hRank⟩
    rw [hValue, hPlace] at hRank
    exact ⟨e, hRead, hRank⟩
  · rw [read?_scientific hDigits hNe, hValue, hPlace]
    exact ⟨_, rfl, rfl⟩

end

/-!
# The characters of a decimal
-/

theorem mem_render {layout : Layout} {d : Decimal} {c : Char} (h : c ∈ d.render layout) :
    c.isDigit = true ∨ c ∈ ['.', 'e', '-'] := by
  have hZero : c = '0' -> c.isDigit = true := fun hc => hc ▸ rfl
  have hDigits : forall n, c ∈ Text.digits n -> c.isDigit = true :=
    fun n hc => allDigits_digits n c hc
  have hTake : forall k, c ∈ (Text.digits d.digits).take k -> c.isDigit = true :=
    fun k hc => hDigits _ (List.mem_of_mem_take hc)
  have hDrop : forall k, c ∈ (Text.digits d.digits).drop k -> c.isDigit = true :=
    fun k hc => hDigits _ (List.mem_of_mem_drop hc)
  have hZeros : forall k, c ∈ List.replicate k '0' -> c.isDigit = true :=
    fun k hc => allDigits_zeros k c hc
  unfold render positional scientific at h
  dsimp only at h
  split_ifs at h <;> grind

theorem head_render (layout : Layout) (d : Decimal) :
    exists c cs, d.render layout = c :: cs ∧ c.isDigit = true := by
  rcases exists_digits_eq_cons d.digits with ⟨c, cs, hDigits, hDigit⟩
  unfold render positional scientific
  rw [hDigits]
  dsimp only
  split
  · split
    · exact ⟨'0', _, rfl, rfl⟩
    · split
      · exact ⟨c, _, rfl, hDigit⟩
      · rename_i hBelow _
        rcases Int.eq_succ_of_zero_lt (Int.not_le.mp hBelow) with ⟨k, hk⟩
        rw [hk]
        exact ⟨c, _, rfl, hDigit⟩
  · split
    · exact ⟨c, _, rfl, hDigit⟩
    · exact ⟨c, _, rfl, hDigit⟩

end Decimal

namespace Binary64

open Text

/-!
# Numbers with their signs
-/

section

variable {layout : Layout} {rank : Nat}

theorem mem_renderRank {c : Char} (h : c ∈ renderRank layout rank) :
    c.isDigit = true ∨ c ∈ ['.', 'e', '-'] := by
  unfold renderRank at h
  split at h
  · simp only [List.mem_cons, List.not_mem_nil, or_false] at h
    rcases h with rfl | rfl | rfl
    · exact Or.inl rfl
    · exact Or.inr List.mem_cons_self
    · exact Or.inl rfl
  · exact Decimal.mem_render h

theorem head_renderRank (layout : Layout) (rank : Nat) :
    exists c cs, renderRank layout rank = c :: cs ∧ c.isDigit = true := by
  unfold renderRank
  split
  · exact ⟨'0', _, rfl, rfl⟩
  · exact Decimal.head_render layout _

theorem read?_renderRank (layout : Layout) (h : rank < infinityRank) :
    exists d, Decimal.read? (renderRank layout rank) = some d ∧ d.rank = rank := by
  unfold renderRank
  split
  · rename_i hZero
    exact ⟨⟨0, -1⟩, by decide, hZero.symm⟩
  · rename_i hNonzero
    have hPos : 0 < rank := Nat.pos_of_ne_zero hNonzero
    have hRank := Decimal.rank_shortest layout.tie hPos h
    have hDigits : (Decimal.shortest layout.tie rank).digits ≠ 0 := by
      intro hZero
      rw [Decimal.rank_of_digits_eq_zero hZero] at hRank
      exact hNonzero hRank.symm
    rcases Decimal.read?_render layout hDigits with ⟨d, hRead, hSame⟩
    exact ⟨d, hRead, hSame.trans hRank⟩

end

theorem toLower_of_isDigit {c : Char} (h : c.isDigit = true) : c.toLower = c := by
  unfold Char.toLower
  rw [dif_neg]
  simp [Char.isDigit, UInt32.le_iff_toNat_le] at *
  omega

theorem ofWord?_of_digit {c : Char} (h : c.isDigit = true) (cs : List Char) :
    ofWord? (c :: cs) = none := by
  -- Each of the words starts with a letter.
  have hWord : forall d ds, d.isDigit = false ->
      String.ofList ((c :: cs).map Char.toLower) ≠ String.ofList (d :: ds) := by
    intro d ds hd hEq
    rw [String.ofList_inj, List.map_cons, toLower_of_isDigit h] at hEq
    rw [(List.cons.inj hEq).1, hd] at h
    cases h
  have hInf : String.ofList ((c :: cs).map Char.toLower) ≠ "inf" := hWord 'i' ['n', 'f'] rfl
  have hInfinity : String.ofList ((c :: cs).map Char.toLower) ≠ "infinity" :=
    hWord 'i' ['n', 'f', 'i', 'n', 'i', 't', 'y'] rfl
  have hNan : String.ofList ((c :: cs).map Char.toLower) ≠ "nan" := hWord 'n' ['a', 'n'] rfl
  unfold ofWord?
  dsimp only
  rw [if_neg (not_or.mpr ⟨hInf, hInfinity⟩), if_neg hNan]

variable {x : Binary64}

theorem write_of_isFinite (h : x.isFinite = true) :
    x.write = (if x.negative then ['-'] else []) ++ renderRank tokenLayout x.rank := by
  have hFinite : x.rank < infinityRank := of_decide_eq_true h
  have hBelow : x.isInfinite = false := beq_eq_false_iff_ne.mpr (Nat.ne_of_lt hFinite)
  unfold write
  simp [isNaN_of_isFinite h, hBelow]

theorem read?_write (h : x.isFinite = true) : read? x.write = some x := by
  rcases head_renderRank tokenLayout x.rank with ⟨c, cs, hText, hDigit⟩
  rcases read?_renderRank tokenLayout (of_decide_eq_true h) with ⟨d, hRead, hRank⟩
  rw [hText] at hRead
  have hSigned : Decimal.spanSign x.write = (x.negative, c :: cs) := by
    rw [write_of_isFinite h, hText]
    cases x.negative with
    | true => rfl
    | false => exact Decimal.spanSign_of_digit hDigit cs
  have hNumber : Decimal.toBinary64 x.negative d = x := by
    cases x
    cases hRank
    rfl
  unfold read?
  rw [hSigned]
  dsimp only
  rw [ofWord?_of_digit hDigit, hRead]
  dsimp only
  rw [Option.map_some, hNumber]

theorem mem_write (hFinite : x.isFinite = true) {c : Char} (h : c ∈ x.write) :
    c.isDigit = true ∨ c ∈ ['.', 'e', '-'] := by
  rw [write_of_isFinite hFinite] at h
  rcases List.mem_append.mp h with hSign | hSize
  · split at hSign
    · rw [List.mem_singleton.mp hSign]
      exact Or.inr (by decide)
    · exact absurd hSign List.not_mem_nil
  · exact mem_renderRank hSize

end Binary64
end LayerAxes
