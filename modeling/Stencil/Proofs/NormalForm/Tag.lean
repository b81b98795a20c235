import Stencil.Proofs.Lookahead.Tag
import Stencil.Proofs.Numerals.Token

/-!
What readers produce. A path has steps in order, a string can stand between quotes, a numeral is one
word, and named parameters have distinct words for names, wherever in a tag they were read.
-/
namespace Stencil
open Written

/-- A path as it is read: at least one step, parents first, then at most one private datum. -/
structure Path.Normal (p : Path) : Prop where
  nonempty : p.steps ≠ []
  inOrder : InOrder p.steps

def Expression.Normal : Expression → Prop
  | .path p => p.Normal
  | .string s => WritableString s
  | .numeral n => WritableNumeral n

/-- Named parameters as they are read: distinct names, each one word. -/
structure NamedParams.Normal (named : NamedParams) : Prop where
  distinct : (named.entries.map (·.1)).Nodup
  names : ∀ entry ∈ named.entries, entry.1 ≠ "" ∧ ∀ c ∈ entry.1.toList, isNameChar c
  values : ∀ entry ∈ named.entries, entry.2.Normal

structure Arguments.Normal (arguments : Arguments) : Prop where
  positional : ∀ e ∈ arguments.positional, e.Normal
  named : arguments.named.Normal

/-- A statement as it is read; the sections of a block are statements of their own. -/
def Statement.Normal : Statement → Prop
  | .raw text => text ≠ ""
  | .comment _ => True
  | .tag head arguments _ => head.Normal ∧ arguments.Normal
  | .insertion name context named =>
    WritableString name ∧ (∀ e ∈ context, e.Normal) ∧ named.Normal
  | .block path arguments _ _ => path.Normal ∧ arguments.Normal

structure BlockHead.Normal (head : BlockHead) : Prop where
  path : head.path.Normal
  arguments : head.arguments.Normal

def TagBody.Normal : TagBody → Prop
  | .statement s => s.Normal
  | .opening _ head => head.Normal
  | .otherwise chain => ∀ head ∈ chain, head.Normal
  | .closing _ => True

/-! Strings and numerals. -/

theorem quotedString?_nil {quote d : Char} {more rest : List Char}
    (h : quotedString? quote (d :: more) = some ([], rest)) : d = quote := by
  rw [quotedString?.eq_def] at h
  dsimp only at h
  split at h
  next hd => exact hd
  next =>
    split at h
    · split at h <;> simp at h
    · simp at h

/-- A backslash at the end of a string would have taken the quote into it. -/
theorem quotedString?_getLast {quote : Char} (hq : quote ≠ '\\') {text value rest : List Char}
    (h : quotedString? quote text = some (value, rest)) : value.getLast? ≠ some '\\' := by
  have hcons {c : Char} {inner : List Char} (hlast : inner.getLast? ≠ some '\\')
      (hc : inner = [] → c ≠ '\\') : (c :: inner).getLast? ≠ some '\\' := by
    cases inner with
    | nil => simpa using hc rfl
    | cons d inner => simpa using hlast
  fun_induction quotedString? quote text generalizing value with
  | case1 => cases h
  | case2 => cases h; simp
  | case3 hd more ih =>
    obtain ⟨⟨inner, _⟩, hinner, hsome⟩ := Option.map_eq_some_iff.mp h
    cases hsome
    exact hcons (ih hinner) fun _ => hq
  | case4 d more hd _ ih =>
    obtain ⟨⟨inner, _⟩, hinner, hsome⟩ := Option.map_eq_some_iff.mp h
    cases hsome
    refine hcons (ih hinner) ?_
    rintro rfl
    exact absurd (quotedString?_nil hinner) hd
  | case5 c rest hother _ ih =>
    obtain ⟨⟨inner, _⟩, hinner, hsome⟩ := Option.map_eq_some_iff.mp h
    cases hsome
    refine hcons (ih hinner) ?_
    rintro - rfl
    cases rest with
    | nil => cases hinner
    | cons d more => exact hother d more rfl rfl

theorem numeral?_normal {text rest : List Char} {n : Numeral} (h : numeral? text = some (n, rest)) :
    WritableNumeral n := by
  obtain ⟨token, htoken, -, -⟩ := numeral?_eq_some.mp h
  cases htoken with
  | yes => exact .inl rfl
  | no => exact .inr (.inl rfl)
  | decimal hw => exact .inr (.inr ⟨_, hw.valid.nonempty, hw.valid.digits, rfl⟩)

/-! Paths. -/

theorem SegmentText.isPlain {s : PathStep} {text : List Char} (h : SegmentText s text) :
    isPlain s := by
  cases h <;> rfl

theorem TailText.isPlain {rest : List PathStep} {tail : List Char} (h : TailText rest tail) :
    ∀ s ∈ rest, Written.isPlain s := by
  induction h with
  | nil => simp
  | cons _ hs _ ih => exact List.forall_mem_cons.mpr ⟨hs.isPlain, ih⟩

/-- What stands before the segments of a path is a run of parents or the present value. -/
theorem FrontText.exists_steps {isPrivate continues : Bool} {steps : List PathStep}
    {text : List Char} (h : FrontText isPrivate steps continues text) :
    (continues = false → steps ≠ []) ∧ ∃ (n : Nat) (plain : List PathStep),
      steps = List.replicate n .parent ++ plain ∧ (isPrivate → plain = []) ∧
        ∀ s ∈ plain, isPlain s := by
  cases h with
  | @parents n => exact ⟨nofun, n, [], by simp⟩
  | @onlyParents n => exact ⟨fun _ => by simp, n + 1, [], by simp⟩
  | point hpublic | onlyPoint hpublic =>
    exact ⟨fun _ => by simp, 0, [.this], by simp [hpublic, isPlain]⟩

namespace Cursor

theorem path_normal {c d : Cursor} {p : Path} (h : c.path = .ok (p, d)) : p.Normal := by
  obtain ⟨text, -, -, htext⟩ := exists_pathText h
  obtain ⟨steps, source⟩ := p
  cases htext with
  | @segments _ _ s _ rest _ hfront hs htail =>
    obtain ⟨-, n, plain, rfl, -, hplain⟩ := hfront.exists_steps
    have hsegments : ∀ x ∈ s :: rest, isPlain x :=
      List.forall_mem_cons.mpr ⟨hs.isPlain, htail.isPlain⟩
    exact ⟨by simp, n, none, plain ++ s :: rest, by simp,
      List.forall_mem_append.mpr ⟨hplain, hsegments⟩⟩
  | @datum _ _ name _ rest _ hfront _ htail =>
    obtain ⟨-, n, plain, rfl, hnone, -⟩ := hfront.exists_steps
    exact ⟨by simp, n, some (String.ofList name), rest, by simp [hnone], htail.isPlain⟩
  | alone hfront =>
    obtain ⟨hne, n, plain, rfl, -, hplain⟩ := hfront.exists_steps
    exact ⟨hne rfl, n, none, plain, by simp, hplain⟩

theorem quoted_normal {c d : Cursor} {quote : Char} (hq : quote ≠ '\\') {text : String}
    (h : c.quoted quote = .ok (text, d)) : WritableString text := by
  rw [quoted] at h
  split at h
  next value rest hvalue =>
    cases h
    rw [WritableString, String.toList_ofList]
    exact quotedString?_getLast hq hvalue
  next => cases h

theorem expression_normal {c d : Cursor} {e : Expression} (h : c.expression = .ok (e, d)) :
    e.Normal := by
  rw [expression] at h
  split at h
  next => cases h
  next first rest _ =>
    split at h
    next hquote =>
      have hq : first ≠ '\\' := by
        rintro rfl
        simp at hquote
      split at h
      next => cases h
      next htext => cases h; exact quoted_normal hq htext
    next =>
      split at h
      next hn => cases h; exact numeral?_normal hn
      next =>
        split at h
        next => cases h
        next hp => cases h; exact path_normal hp

end Cursor

/-! Arguments. -/

theorem NamedParams.map_replace (name : String) (e : Expression)
    (entries : List (String × Expression)) :
    (replace name e entries).map (·.1) = entries.map (·.1) := by
  induction entries with
  | nil => rfl
  | cons entry rest ih =>
    rw [replace]
    split
    next h => simp [h]
    next => simp [ih]

theorem NamedParams.mem_replace {name : String} {e : Expression}
    {entries : List (String × Expression)} {entry : String × Expression}
    (h : entry ∈ replace name e entries) : entry = (name, e) ∨ entry ∈ entries := by
  induction entries with
  | nil => cases h
  | cons first rest ih =>
    rw [replace] at h
    split at h
    · rcases List.mem_cons.mp h with rfl | h
      · exact .inl rfl
      · exact .inr (.tail _ h)
    · rcases List.mem_cons.mp h with rfl | h
      · exact .inr (.head _)
      · exact (ih h).imp id (.tail _)

theorem NamedParams.Normal.insert {named : NamedParams} (h : named.Normal) {name : String}
    {e : Expression} (hname : name ≠ "" ∧ ∀ c ∈ name.toList, isNameChar c) (he : e.Normal) :
    (named.insert name e).Normal := by
  have hentry : ∀ entry ∈ (named.insert name e).entries,
      entry = (name, e) ∨ entry ∈ named.entries := by
    intro entry hentry
    rw [NamedParams.insert] at hentry
    split at hentry
    · exact mem_replace hentry
    · simpa [or_comm] using hentry
  refine ⟨?_, fun entry hmem => ?_, fun entry hmem => ?_⟩
  · rw [NamedParams.insert]
    split
    next => rw [map_replace]; exact h.distinct
    next hfresh =>
      have hnot : name ∉ named.entries.map (·.1) := by simpa using hfresh
      rw [List.map_append]
      refine List.nodup_append.mpr ⟨h.distinct, by simp, fun other hother => ?_⟩
      simpa using fun heq : other = name => hnot (heq ▸ hother)
  · rcases hentry entry hmem with rfl | hmem
    · exact hname
    · exact h.names entry hmem
  · rcases hentry entry hmem with rfl | hmem
    · exact he
    · exact h.values entry hmem

theorem NamedParams.normal_nil : NamedParams.Normal {} := ⟨by simp, by simp, by simp⟩

theorem Arguments.normal_nil : Arguments.Normal {} := ⟨by simp, NamedParams.normal_nil⟩

theorem Arguments.Normal.add {found : Arguments} (h : found.Normal) {name? : Option String}
    (hname : ∀ name ∈ name?, name ≠ "" ∧ ∀ c ∈ name.toList, isNameChar c) {e : Expression}
    (he : e.Normal) : (found.add name? e).Normal := by
  cases name? with
  | none =>
    refine ⟨fun e' he' => ?_, h.named⟩
    rcases List.mem_append.mp he' with he' | he'
    · exact h.positional e' he'
    · obtain rfl : e' = e := by simpa using he'
      exact he
  | some name => exact ⟨h.positional, h.named.insert (hname name rfl) he⟩

namespace Cursor

theorem parameterName?_normal {c : Cursor} {name : List Char} (h : c.parameterName? = some name) :
    name ≠ [] ∧ ∀ c ∈ name, isNameChar c := by
  rw [parameterName?] at h
  split at h
  next hname =>
    cases h
    obtain ⟨hne, -⟩ := Bool.and_eq_true_iff.mp hname
    exact ⟨by simpa using hne, List.all_eq_true.mp List.all_takeWhile⟩
  next => cases h

theorem arguments_normal {c d : Cursor} {rule : ParamRule} {found arguments : Arguments}
    (hfound : found.Normal) (h : c.arguments rule found = .ok (arguments, d)) :
    arguments.Normal := by
  fun_induction Cursor.arguments c rule found with
  | case1 =>
    simp only [Except.ok.injEq, Prod.mk.injEq] at h
    exact h.1 ▸ hfound
  | case2 => cases h
  | case3 => cases h
  | case4 c found e _ name? _ e after he _ ih =>
    refine ih (hfound.add ?_ (expression_normal he)) h
    intro name hname
    obtain ⟨text, htext, rfl⟩ := Option.map_eq_some_iff.mp hname
    simpa using parameterName?_normal htext

theorem call_normal {c d : Cursor} {head : Expression} {arguments : Arguments}
    (h : c.call = .ok ((head, arguments), d)) : head.Normal ∧ arguments.Normal := by
  obtain ⟨⟨head', e⟩, hhead, h⟩ := exists_of_bind h
  obtain ⟨⟨arguments', f⟩, harguments, h⟩ := exists_of_bind h
  cases h
  exact ⟨expression_normal hhead, arguments_normal Arguments.normal_nil harguments⟩

theorem blockHead_normal {c d : Cursor} {head : BlockHead} (h : c.blockHead = .ok (head, d)) :
    head.Normal := by
  obtain ⟨⟨⟨e, arguments⟩, d'⟩, hcall, h⟩ := exists_of_bind h
  obtain ⟨he, harguments⟩ := call_normal hcall
  cases e with
  | path path => cases h; exact ⟨he, harguments⟩
  | string | numeral => cases h

theorem partialName_normal {c d : Cursor} {name : String} (h : c.partialName = .ok (name, d)) :
    WritableString name := by
  rw [partialName] at h
  split at h
  · exact quoted_normal (by decide) h
  · split at h
    · exact quoted_normal (by decide) h
    · dsimp only at h
      split at h
      · cases h
      · cases h
        rw [WritableString, String.toList_ofList]
        intro hlast
        have := List.all_eq_true.mp List.all_takeWhile _ (List.mem_of_getLast? hlast)
        revert this
        decide

end Cursor

theorem TagBody.Read.normal {body : TagBody} (h : body.Read) : body.Normal := by
  cases h with
  | tag hcall => exact Cursor.call_normal hcall
  | insertion hname harguments =>
    have hnormal := Cursor.arguments_normal Arguments.normal_nil harguments
    exact ⟨Cursor.partialName_normal hname,
      fun e he => hnormal.positional e (List.mem_of_head? he), hnormal.named⟩
  | comment => trivial
  | opening hhead => exact Cursor.blockHead_normal hhead
  | otherwise => nofun
  | chained hhead =>
    rintro head ⟨⟩
    exact Cursor.blockHead_normal hhead
  | closing => trivial

end Stencil
