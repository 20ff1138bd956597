import LayerAxes.Error
import LayerAxes.LayerFile.Template
import LayerAxes.Proofs.Text.Cut
import Mathlib.Data.List.Forall2

/-!
# Texts with their variables replaced

A text is scanned once, from left to right, into segments and a rest: each segment is
some text as it stands and the expression after it, and in the rest no expression is
closed.  Replacing variables replaces just these expressions, and fails exactly when
one is not closed or names a variable that is not set.  So a text that does not stop
within a mark can be replaced on its own, whatever comes after it.
-/

namespace LayerAxes
namespace Template

/-!
# Scanning a text
-/

/-- Some text as it stands, and the expression after it. -/
@[ext]
structure Segment where
  verbatim : List Char
  expression : List Char

def Segment.chars (s : Segment) : List Char :=
  s.verbatim ++ opening ++ s.expression ++ [closing]

/-- No expression is closed in the text: no mark that opens one has a closing brace after it. -/
def NothingClosed (cs : List Char) : Prop :=
  forall before after, cs = before ++ opening ++ after -> closing ∉ after

/--
The text consists of the segments and the rest.  Each expression begins at the first
mark that opens one and ends at the first brace that closes one, and the segments are
all there are.
-/
structure ScansTo (cs : List Char) (segments : List Segment) (rest : List Char) : Prop where
  text : cs = segments.flatMap Segment.chars ++ rest
  verbatim : forall s, s ∈ segments -> ¬ opening <:+: s.verbatim
  expression : forall s, s ∈ segments -> closing ∉ s.expression
  nothingClosed : NothingClosed rest

section

variable {cs before expression after rest : List Char} {segments : List Segment} {s : Segment}

theorem split_eq_plain_iff : split cs = .plain <-> ¬ opening <:+: cs := by
  rw [← Text.cut?_eq_none_iff]
  unfold split
  cases Text.cut? opening cs with
  | none => simp
  | some parts =>
      dsimp only
      cases Text.cutAt? closing parts.2 <;> simp

theorem split_eq_closed_iff :
    split cs = .closed before expression after <->
      cs = before ++ opening ++ expression ++ closing :: after ∧
        ¬ opening <:+: before ∧ closing ∉ expression := by
  constructor
  · intro h
    unfold split at h
    split at h
    · cases h
    · rename_i hOpening
      split at h
      · cases h
      · rename_i hClosing
        cases h
        rcases Text.cutAt?_cases closing _ with ⟨hNone, _⟩ | ⟨inner, later, hCut, hNot, hText⟩
        · rw [hNone] at hClosing
          cases hClosing
        · rw [hCut] at hClosing
          cases hClosing
          have hWhole := Text.append_of_cut?_eq_some hOpening
          rw [hText] at hWhole
          refine ⟨?_, Text.not_infix_of_cut?_eq_some (List.cons_ne_nil _ _) hOpening, hNot⟩
          rw [← hWhole, ← List.append_assoc]
  · rintro ⟨rfl, hBefore, hExpression⟩
    have hOpening : Text.cut? opening (before ++ opening ++ expression ++ closing :: after) =
        some (before, expression ++ closing :: after) := by
      rw [List.append_assoc]
      exact Text.cut?_append_mark (by decide) hBefore _
    unfold split
    rw [hOpening]
    dsimp only
    rw [Text.cutAt?_append hExpression]

theorem nothingClosed_of_no_opening (h : ¬ opening <:+: cs) : NothingClosed cs := by
  rintro before after rfl
  exact absurd ⟨before, after, rfl⟩ h

theorem nothingClosed_iff :
    NothingClosed cs <->
      forall before expression after, split cs ≠ .closed before expression after := by
  constructor
  · intro h before expression after hSplit
    have hText := (split_eq_closed_iff.mp hSplit).1
    rw [List.append_assoc] at hText
    exact h _ _ hText (by simp)
  · rintro h before after rfl hClosing
    unfold split at h
    rcases Text.exists_cut?_append before opening after with ⟨first, skipped, hCut⟩
    rw [hCut] at h
    dsimp only at h
    rcases Text.cutAt?_cases closing (skipped ++ after) with ⟨_, hNot⟩ | ⟨inner, later, hIn, _, _⟩
    · exact hNot (List.mem_append_right _ hClosing)
    · rw [hIn] at h
      exact h _ _ _ rfl

theorem nothingClosed_or_closed (cs : List Char) :
    NothingClosed cs ∨
      exists before expression after, split cs = .closed before expression after := by
  by_cases h : NothingClosed cs
  · exact Or.inl h
  · rw [nothingClosed_iff] at h
    push Not at h
    exact Or.inr h

theorem scansTo_nil_iff : ScansTo cs [] rest <-> rest = cs ∧ NothingClosed cs := by
  constructor
  · intro h
    have hText : cs = rest := h.text
    exact ⟨hText.symm, hText ▸ h.nothingClosed⟩
  · rintro ⟨rfl, h⟩
    exact ⟨rfl, by simp, by simp, h⟩

theorem scansTo_cons_iff :
    ScansTo cs (s :: segments) rest <->
      exists after, split cs = .closed s.verbatim s.expression after ∧
        ScansTo after segments rest := by
  constructor
  · intro h
    rcases List.forall_mem_cons.mp h.verbatim with ⟨hVerbatim, hVerbatims⟩
    rcases List.forall_mem_cons.mp h.expression with ⟨hExpression, hExpressions⟩
    refine ⟨segments.flatMap Segment.chars ++ rest,
      split_eq_closed_iff.mpr ⟨?_, hVerbatim, hExpression⟩,
      rfl, hVerbatims, hExpressions, h.nothingClosed⟩
    rw [h.text, List.flatMap_cons, Segment.chars]
    simp
  · rintro ⟨after, hSplit, h⟩
    rcases split_eq_closed_iff.mp hSplit with ⟨rfl, hVerbatim, hExpression⟩
    refine ⟨?_, List.forall_mem_cons.mpr ⟨hVerbatim, h.verbatim⟩,
      List.forall_mem_cons.mpr ⟨hExpression, h.expression⟩, h.nothingClosed⟩
    rw [List.flatMap_cons, Segment.chars, h.text]
    simp

end

theorem exists_scansTo (cs : List Char) : exists segments rest, ScansTo cs segments rest := by
  rcases nothingClosed_or_closed cs with hNothing | ⟨before, expression, after, hSplit⟩
  · exact ⟨[], cs, scansTo_nil_iff.mpr ⟨rfl, hNothing⟩⟩
  · rcases exists_scansTo after with ⟨segments, rest, hScan⟩
    exact ⟨⟨before, expression⟩ :: segments, rest, scansTo_cons_iff.mpr ⟨after, hSplit, hScan⟩⟩
termination_by cs.length
decreasing_by exact split_shorter hSplit

theorem ScansTo.unique {cs rest last : List Char} {segments others : List Segment}
    (h : ScansTo cs segments rest) (hOther : ScansTo cs others last) :
    others = segments ∧ last = rest := by
  induction segments generalizing cs others with
  | nil =>
      rcases scansTo_nil_iff.mp h with ⟨rfl, hNothing⟩
      cases others with
      | nil => exact ⟨rfl, (scansTo_nil_iff.mp hOther).1⟩
      | cons s others =>
          rcases scansTo_cons_iff.mp hOther with ⟨after, hSplit, _⟩
          exact absurd hSplit (nothingClosed_iff.mp hNothing _ _ _)
  | cons s segments ih =>
      rcases scansTo_cons_iff.mp h with ⟨after, hSplit, hAfter⟩
      cases others with
      | nil => exact absurd hSplit (nothingClosed_iff.mp (scansTo_nil_iff.mp hOther).2 _ _ _)
      | cons t others =>
          rcases scansTo_cons_iff.mp hOther with ⟨later, hLater, hMore⟩
          rw [hSplit] at hLater
          injection hLater with hVerbatim hExpression hSame
          rw [← hSame] at hMore
          rcases ih hAfter hMore with ⟨rfl, rfl⟩
          rw [Segment.ext hVerbatim hExpression]
          exact ⟨rfl, rfl⟩

/-!
# Values of expressions
-/

/--
The text that stands in for an expression: the value of the variable that it names, or
its default, where it has one and the variable is not set or empty.
-/
inductive StandsFor (env : Environment) : List Char -> List Char -> Prop where
  | value {name : List Char} {value : String} (hName : ¬ defaultMark <:+: name)
      (hSet : env (variableName name) = some value) : StandsFor env name value.toList
  | given {name standard : List Char} {value : String} (hName : ¬ defaultMark <:+: name)
      (hSet : env (variableName name) = some value) (hValue : value ≠ "") :
      StandsFor env (name ++ defaultMark ++ standard) value.toList
  | standard {name standard : List Char} (hName : ¬ defaultMark <:+: name)
      (hUnset : forall value, env (variableName name) = some value -> value = "") :
      StandsFor env (name ++ defaultMark ++ standard) standard

/-- The expression has a default, or else it names a variable that is set. -/
def HasValue (env : Environment) (expression : List Char) : Prop :=
  ¬ defaultMark <:+: expression -> exists value, env (variableName expression) = some value

section

variable {env : Environment} {expression value : List Char}

theorem resolve_of_no_defaultMark (h : ¬ defaultMark <:+: expression) :
    resolve env expression =
      match env (variableName expression) with
      | some value => .ok value.toList
      | none => .error (.unset (String.ofList expression)) := by
  have hCut := Text.cut?_eq_none_iff.mpr h
  cases hValue : env (variableName expression) <;> simp only [resolve, hCut, hValue]

theorem resolve_of_default {name standard : List Char} (h : ¬ defaultMark <:+: name) :
    resolve env (name ++ defaultMark ++ standard) =
      match (env (variableName name)).filter fun value => !value.isEmpty with
      | some value => .ok value.toList
      | none => .ok standard := by
  have hCut : Text.cut? defaultMark (name ++ defaultMark ++ standard) = some (name, standard) :=
    Text.cut?_append_mark (by decide) h standard
  cases hValue : (env (variableName name)).filter fun value => !value.isEmpty <;>
    simp only [resolve, hCut, hValue]

theorem exists_name_of_infix (h : defaultMark <:+: expression) :
    exists name standard, expression = name ++ defaultMark ++ standard ∧
      ¬ defaultMark <:+: name := by
  cases hCut : Text.cut? defaultMark expression with
  | none => exact absurd h (Text.cut?_eq_none_iff.mp hCut)
  | some parts =>
      exact ⟨parts.1, parts.2, (Text.append_of_cut?_eq_some hCut).symm,
        Text.not_infix_of_cut?_eq_some (List.cons_ne_nil _ _) hCut⟩

theorem resolve_eq_ok_of_standsFor (h : StandsFor env expression value) :
    resolve env expression = .ok value := by
  cases h with
  | value hName hSet => rw [resolve_of_no_defaultMark hName, hSet]
  | @given name standard value hName hSet hValue =>
      have hFull : value.isEmpty = false := by simpa using hValue
      rw [resolve_of_default hName, hSet, Option.filter_some, hFull]
      rfl
  | @standard name standard hName hUnset =>
      have hNone : ((env (variableName name)).filter fun value => !value.isEmpty) = none := by
        rw [Option.filter_eq_none_iff]
        intro value hValue
        simp [hUnset value hValue]
      rw [resolve_of_default hName, hNone]

theorem standsFor_of_resolve_eq_ok (h : resolve env expression = .ok value) :
    StandsFor env expression value := by
  by_cases hMark : defaultMark <:+: expression
  · rcases exists_name_of_infix hMark with ⟨name, standard, rfl, hName⟩
    rw [resolve_of_default hName] at h
    split at h
    · rename_i given hGiven
      cases h
      rcases Option.filter_eq_some_iff.mp hGiven with ⟨hSet, hFull⟩
      exact .given hName hSet (by simpa using hFull)
    · rename_i hNone
      cases h
      refine .standard hName fun given hSet => ?_
      have hEmpty := Option.filter_eq_none_iff.mp hNone given hSet
      simpa using hEmpty
  · rw [resolve_of_no_defaultMark hMark] at h
    split at h
    · rename_i given hSet
      cases h
      exact .value hMark hSet
    · cases h

theorem resolve_eq_ok_iff : resolve env expression = .ok value <-> StandsFor env expression value :=
  ⟨standsFor_of_resolve_eq_ok, resolve_eq_ok_of_standsFor⟩

theorem exists_resolve_eq_ok_iff :
    (exists value, resolve env expression = .ok value) <-> HasValue env expression := by
  by_cases hMark : defaultMark <:+: expression
  · refine ⟨fun _ hNot => absurd hMark hNot, fun _ => ?_⟩
    rcases exists_name_of_infix hMark with ⟨name, standard, rfl, hName⟩
    rw [resolve_of_default hName]
    split
    · exact ⟨_, rfl⟩
    · exact ⟨_, rfl⟩
  · rw [resolve_of_no_defaultMark hMark]
    cases hSet : env (variableName expression) with
    | some value => exact ⟨fun _ _ => ⟨value, hSet⟩, fun _ => ⟨_, rfl⟩⟩
    | none =>
        constructor
        · rintro ⟨value, hError⟩
          cases hError
        · intro hHas
          rcases hHas hMark with ⟨value, hValue⟩
          rw [hSet] at hValue
          cases hValue

end

/-!
# Replacing expressions
-/

/-- The segment turns into its own text and a text that stands in for its expression. -/
def Segment.Becomes (env : Environment) (s : Segment) (part : List Char) : Prop :=
  exists value, StandsFor env s.expression value ∧ part = s.verbatim ++ value

section

variable {env : Environment} {cs before expression after rest out : List Char}
  {segments : List Segment}

theorem expand_eq (env : Environment) (cs : List Char) :
    expand env cs =
      match split cs with
      | .plain => .ok cs
      | .unclosed after => .error (.unclosed (String.ofList after))
      | .closed before expression after => do
          let value <- resolve env expression
          return before ++ value ++ (<- expand env after) := by
  rw [expand]
  split
  · rename_i h
    rw [h]
  · rename_i h
    rw [h]
  · rename_i h
    rw [h]

theorem expand_of_closed (h : split cs = .closed before expression after) :
    expand env cs = (do
      let value <- resolve env expression
      return before ++ value ++ (<- expand env after)) := by
  rw [expand_eq, h]

theorem expand_eq_ok_iff_of_nothingClosed (h : NothingClosed cs) :
    expand env cs = .ok out <-> ¬ opening <:+: cs ∧ out = cs := by
  rw [← split_eq_plain_iff, expand_eq]
  cases hSplit : split cs with
  | plain => simp [eq_comm]
  | unclosed after => simp
  | closed before expression after =>
      exact absurd hSplit (nothingClosed_iff.mp h before expression after)

theorem expand_eq_ok_iff_of_closed (h : split cs = .closed before expression after) :
    expand env cs = .ok out <->
      exists value tail, resolve env expression = .ok value ∧ expand env after = .ok tail ∧
        out = before ++ value ++ tail := by
  rw [expand_of_closed h]
  constructor
  · intro hOut
    rcases Answer.exists_of_bind_eq_ok hOut with ⟨value, hValue, hMore⟩
    rcases Answer.exists_of_bind_eq_ok hMore with ⟨tail, hTail, hReturn⟩
    cases hReturn
    exact ⟨value, tail, hValue, hTail, rfl⟩
  · rintro ⟨value, tail, hValue, hTail, rfl⟩
    rw [hValue, hTail]
    rfl

theorem expand_eq_ok_iff (hScan : ScansTo cs segments rest) :
    expand env cs = .ok out <->
      ¬ opening <:+: rest ∧
        exists parts, List.Forall₂ (Segment.Becomes env) segments parts ∧
          out = parts.flatten ++ rest := by
  induction segments generalizing cs out with
  | nil =>
      rcases scansTo_nil_iff.mp hScan with ⟨rfl, hNothing⟩
      rw [expand_eq_ok_iff_of_nothingClosed hNothing]
      simp
  | cons s segments ih =>
      rcases scansTo_cons_iff.mp hScan with ⟨after, hSplit, hAfter⟩
      rw [expand_eq_ok_iff_of_closed hSplit]
      constructor
      · rintro ⟨value, tail, hValue, hTail, rfl⟩
        rcases (ih hAfter).mp hTail with ⟨hRest, parts, hParts, rfl⟩
        refine ⟨hRest, (s.verbatim ++ value) :: parts,
          .cons ⟨value, resolve_eq_ok_iff.mp hValue, rfl⟩ hParts, ?_⟩
        rw [List.flatten_cons, List.append_assoc _ parts.flatten]
      · rintro ⟨hRest, parts, hParts, rfl⟩
        cases hParts with
        | @cons _ part _ parts hFirst hParts =>
            rcases hFirst with ⟨value, hValue, rfl⟩
            refine ⟨value, _, resolve_eq_ok_iff.mpr hValue,
              (ih hAfter).mpr ⟨hRest, parts, hParts, rfl⟩, ?_⟩
            rw [List.flatten_cons, List.append_assoc _ parts.flatten]

theorem exists_expand_eq_ok_iff (hScan : ScansTo cs segments rest) :
    (exists out, expand env cs = .ok out) <->
      ¬ opening <:+: rest ∧ forall s, s ∈ segments -> HasValue env s.expression := by
  induction segments generalizing cs with
  | nil =>
      rcases scansTo_nil_iff.mp hScan with ⟨rfl, hNothing⟩
      simp [expand_eq_ok_iff_of_nothingClosed hNothing]
  | cons s segments ih =>
      rcases scansTo_cons_iff.mp hScan with ⟨after, hSplit, hAfter⟩
      simp only [expand_eq_ok_iff_of_closed hSplit]
      rw [List.forall_mem_cons, ← exists_resolve_eq_ok_iff, and_left_comm, ← ih hAfter]
      constructor
      · rintro ⟨_, value, tail, hValue, hTail, _⟩
        exact ⟨⟨value, hValue⟩, tail, hTail⟩
      · rintro ⟨⟨value, hValue⟩, tail, hTail⟩
        exact ⟨_, value, tail, hValue, hTail, rfl⟩

/-!
# Text after text
-/

theorem split_append (h : ¬ opening <:+: cs) (hLast : cs.getLast? ≠ some '$')
    (more : List Char) :
    split (cs ++ more) =
      match split more with
      | .plain => .plain
      | .unclosed after => .unclosed after
      | .closed before expression after => .closed (cs ++ before) expression after := by
  have hCut : Text.cut? opening (cs ++ more) =
      (Text.cut? opening more).map fun parts => (cs ++ parts.1, parts.2) :=
    Text.cut?_append_of_no_mark (by decide) h hLast more
  unfold split
  rw [hCut]
  cases Text.cut? opening more with
  | none => rfl
  | some parts =>
      rcases parts with ⟨before, rest⟩
      dsimp only [Option.map_some]
      cases Text.cutAt? closing rest <;> rfl

theorem expand_append_of_no_opening (h : ¬ opening <:+: cs) (hLast : cs.getLast? ≠ some '$')
    (more : List Char) :
    expand env (cs ++ more) = (expand env more).map fun tail => cs ++ tail := by
  rw [expand_eq, split_append h hLast, expand_eq env more]
  cases split more with
  | plain => rfl
  | unclosed after => rfl
  | closed before expression after =>
      dsimp only
      cases resolve env expression with
      | error fault => rfl
      | ok value =>
          cases expand env after with
          | error fault => rfl
          | ok tail =>
              show Except.ok (cs ++ before ++ value ++ tail) =
                Except.ok (cs ++ (before ++ value ++ tail))
              simp only [List.append_assoc]

end

/--
A text that is replaced and does not end in a dollar sign is replaced on its own: what
comes after it is replaced, or fails, as it would without it.
-/
theorem expand_append {env : Environment} {cs out : List Char} (h : expand env cs = .ok out)
    (hLast : cs.getLast? ≠ some '$') (more : List Char) :
    expand env (cs ++ more) = (expand env more).map fun tail => out ++ tail := by
  rcases nothingClosed_or_closed cs with hNothing | ⟨before, expression, after, hSplit⟩
  · rcases (expand_eq_ok_iff_of_nothingClosed hNothing).mp h with ⟨hNot, rfl⟩
    exact expand_append_of_no_opening hNot hLast more
  · rcases (expand_eq_ok_iff_of_closed hSplit).mp h with ⟨value, tail, hValue, hTail, rfl⟩
    rcases split_eq_closed_iff.mp hSplit with ⟨hText, hBefore, hExpression⟩
    have hWhole : split (cs ++ more) = .closed before expression (after ++ more) :=
      split_eq_closed_iff.mpr ⟨by rw [hText]; simp, hBefore, hExpression⟩
    have hAfter : after.getLast? ≠ some '$' := by
      intro hDollar
      apply hLast
      rw [hText, List.getLast?_append, List.getLast?_cons, hDollar]
      rfl
    rw [expand_of_closed hWhole, hValue, expand_append hTail hAfter more]
    cases expand env more with
    | error fault => rfl
    | ok rest =>
        show Except.ok (before ++ value ++ (tail ++ rest)) =
          Except.ok (before ++ value ++ tail ++ rest)
        simp only [List.append_assoc]
termination_by cs.length
decreasing_by exact split_shorter hSplit

/--
Every text scans in one way.  It is replaced exactly when no expression is left open
and each has a value, and then the values stand in place of the expressions and all
else is as it was; and a text that ends before a mark can begin is replaced on its own.
-/
theorem expand_replaces_expressions (env : Environment) (cs : List Char) :
    exists segments rest,
      (ScansTo cs segments rest ∧
        forall others last, ScansTo cs others last -> others = segments ∧ last = rest) ∧
      ((exists out, expand env cs = .ok out) <->
        ¬ opening <:+: rest ∧ forall s, s ∈ segments -> HasValue env s.expression) ∧
      (forall out, expand env cs = .ok out <->
        ¬ opening <:+: rest ∧
          exists parts, List.Forall₂ (Segment.Becomes env) segments parts ∧
            out = parts.flatten ++ rest) ∧
      forall out more, expand env cs = .ok out -> cs.getLast? ≠ some '$' ->
        expand env (cs ++ more) = (expand env more).map fun tail => out ++ tail := by
  rcases exists_scansTo cs with ⟨segments, rest, hScan⟩
  refine ⟨segments, rest, ⟨hScan, fun _ _ hOther => hScan.unique hOther⟩,
    exists_expand_eq_ok_iff hScan, fun out => expand_eq_ok_iff hScan, ?_⟩
  intro out more hOut hLast
  exact expand_append hOut hLast more

def loopingNames : Environment
  | "A" => some "$\x7bA\x7d"
  | "E" => some ""
  | _ => none

def nestedText : List Char :=
  "<$\x7b A \x7d|$\x7bE:-$\x7bX\x7d\x7d".toList

theorem nested_expressions_are_replaced_once :
    expand loopingNames nestedText = .ok "<$\x7bA\x7d|$\x7bX\x7d".toList ∧
      expand loopingNames (nestedText ++ "$\x7bX\x7d".toList) = .error (.unset "X") := by
  have hScan : ScansTo nestedText
      [⟨"<".toList, " A ".toList⟩, ⟨"|".toList, "E:-$\x7bX".toList⟩] "\x7d".toList :=
    ⟨rfl, by decide, by decide, nothingClosed_of_no_opening (by decide)⟩
  rcases expand_replaces_expressions loopingNames nestedText with
    ⟨segments, rest, ⟨_, hUnique⟩, _, hOut, hMore⟩
  rcases hUnique _ _ hScan with ⟨rfl, rfl⟩
  have hText : expand loopingNames nestedText = .ok "<$\x7bA\x7d|$\x7bX\x7d".toList := by
    have hFirst : StandsFor loopingNames " A ".toList "$\x7bA\x7d".toList :=
      .value (by decide) (by decide)
    have hSecond : StandsFor loopingNames ("E".toList ++ defaultMark ++ "$\x7bX".toList)
        "$\x7bX".toList := by
      refine .standard (by decide) fun value hValue => ?_
      have hEmpty : loopingNames (variableName "E".toList) = some "" := by decide
      rw [hEmpty] at hValue
      exact (Option.some.inj hValue).symm
    exact (hOut _).mpr ⟨by decide, _, .cons ⟨_, hFirst, rfl⟩ (.cons ⟨_, hSecond, rfl⟩ .nil), rfl⟩
  have hUnset : expand loopingNames "$\x7bX\x7d".toList = .error (.unset "X") := by
    have hSplit : split "$\x7bX\x7d".toList = .closed [] ['X'] [] := rfl
    rw [expand_of_closed hSplit, resolve_of_no_defaultMark (by decide)]
    rfl
  rw [hMore _ _ hText (by decide), hUnset]
  exact ⟨hText, rfl⟩

end Template
end LayerAxes
