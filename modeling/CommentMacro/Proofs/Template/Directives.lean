import CommentMacro.Proofs.Pattern.Tiling
import CommentMacro.Proofs.Template.Braces

/-!
# Where a directive starts

A directive starts where a text has opening braces and the first closing braces behind
them come before any line feed (`OpensDirective`): this is where `inside?` finds one
(`inside?_eq_some_iff`).

Read from the front, a template is empty, or it begins with a directive, or with a
character that belongs to none (`directivesInduction`), and is cut accordingly
(`splitDirectives_inBraces`, `splitDirectives_cons`).
-/

namespace CommentMacro.Template

open Pattern (matchAt?)

/-- A text begins with a directive: with opening braces, and behind them with closing
braces before any line feed. The first ones end the inside. -/
def OpensDirective (t inside : Text) : Prop :=
  ∃ rest, t = inBraces inside ++ rest ∧ '\n' ∉ inside ∧
    NoneBefore closesBraces inside ('\x7d' :: '\x7d' :: rest)

/-! ## The inside of a directive -/

theorem untilClosed?_eq_some_iff {t inside : Text} :
    untilClosed? t = some inside ↔
      ∃ rest, t = inside ++ '\x7d' :: '\x7d' :: rest ∧ '\n' ∉ inside ∧
        NoneBefore closesBraces inside ('\x7d' :: '\x7d' :: rest) := by
  constructor
  · intro h
    fun_induction untilClosed? t generalizing inside with
    | case1 => simp at h
    | case2 c t hcloses =>
        obtain rfl := Option.some.inj h
        obtain ⟨rfl, hhead⟩ := closesBraces_cons_iff.mp hcloses
        obtain ⟨rest, rfl⟩ := List.head?_eq_some_iff.mp hhead
        exact ⟨rest, rfl, by simp, noneBefore_nil _ _⟩
    | case3 => simp at h
    | case4 c t hcloses hfeed ih =>
        obtain ⟨later, hlater, rfl⟩ := Option.map_eq_some_iff.mp h
        obtain ⟨rest, rfl, hlaterFeed, hnone⟩ := ih hlater
        refine ⟨rest, rfl, ?_, noneBefore_cons.mpr ⟨Bool.eq_false_iff.mpr hcloses, hnone⟩⟩
        rw [List.mem_cons, not_or]
        exact ⟨Ne.symm hfeed, hlaterFeed⟩
  · rintro ⟨rest, rfl, hfeed, hnone⟩
    induction inside with
    | nil => rfl
    | cons c inside ih =>
        rw [List.mem_cons, not_or] at hfeed
        obtain ⟨hhere, hlater⟩ := noneBefore_cons.mp hnone
        rw [List.cons_append, untilClosed?, hhere, if_neg (by simp), if_neg (Ne.symm hfeed.1),
          ih hfeed.2 hlater]
        rfl

/-- A directive is found where one starts. -/
theorem inside?_eq_some_iff {t inside : Text} :
    inside? t = some inside ↔ OpensDirective t inside := by
  rw [inside?, Option.bind_eq_some_iff]
  constructor
  · rintro ⟨behind, hbehind, hinside⟩
    obtain ⟨rest, rfl, hfeed, hnone⟩ := untilClosed?_eq_some_iff.mp hinside
    refine ⟨rest, ?_, hfeed, hnone⟩
    rw [Text.eq_append_of_after? hbehind]
    simp [inBraces]
  · rintro ⟨rest, rfl, hfeed, hnone⟩
    refine ⟨inside ++ '\x7d' :: '\x7d' :: rest, ?_,
      untilClosed?_eq_some_iff.mpr ⟨rest, rfl, hfeed, hnone⟩⟩
    simp [inBraces, Text.after?]

theorem inside?_eq_some {t inside : Text} (h : inside? t = some inside) :
    ∃ rest, t = inBraces inside ++ rest := by
  obtain ⟨rest, rfl, -, -⟩ := inside?_eq_some_iff.mp h
  exact ⟨rest, rfl⟩

theorem lineFeed_not_mem_of_inside? {t inside : Text} (h : inside? t = some inside) :
    '\n' ∉ inside := by
  obtain ⟨rest, -, hfeed, -⟩ := inside?_eq_some_iff.mp h
  exact hfeed

theorem inside?_cons {c : Char} (hc : c ≠ '\x7b') (t : Text) : inside? (c :: t) = none := by
  simp [inside?, Text.after?, Ne.symm hc]

/-! ## Plain text in front -/

/-- Puts a character before the tokens, into the plain text they begin with if
they do. -/
def pushPlain (c : Char) : List (Token .raw) → List (Token .raw)
  | .plain t :: tokens => .plain (c :: t) :: tokens
  | tokens => .plain [c] :: tokens

theorem textOf_pushPlain (c : Char) (tokens : List (Token .raw)) :
    textOf (pushPlain c tokens) = c :: textOf tokens := by
  unfold pushPlain
  split <;> simp [textOf, Token.text]

theorem plainBetween_append (front source : Text) (start stop : Nat) :
    plainBetween (front ++ source) (front.length + start) (front.length + stop) =
      plainBetween source start stop := by
  rw [plainBetween, plainBetween, Pattern.slice_append_left]

section

variable {p : Pattern} {onMatch : Text → Match → List (Token .raw)}
  (hlocal : ∀ front source m, onMatch (front ++ source) (m.shift front.length) = onMatch source m)
include hlocal

theorem cutPlain_append {run source : Text} {m : Match}
    (h : p.matchAt? (run ++ source).toArray 0 = some m) (hstop : m.stop = run.length)
    (hne : run ≠ []) :
    cutPlain p onMatch (run ++ source) =
      onMatch (run ++ source) m ++ cutPlain p onMatch source := by
  exact Pattern.chunk_append (hlocal run source) (plainBetween_append run source) h hstop hne

/-- A character at which nothing matches belongs to the plain text behind it. -/
theorem cutPlain_cons {c : Char} {source : Text}
    (h : p.matchAt? (c :: source).toArray 0 = none)
    (hfound : ∀ m, p.matchAt? source.toArray 0 = some m →
      ∃ token tokens, onMatch source m = token :: tokens ∧ ∀ t, token ≠ .plain t) :
    cutPlain p onMatch (c :: source) = pushPlain c (cutPlain p onMatch source) := by
  have hbehind := Pattern.flatMap_replace_shift (hlocal [c] source) (plainBetween_append [c] source)
  have hfirst : plainBetween (c :: source) 0 1 = [.plain [c]] := rfl
  rw [cutPlain, cutPlain, Pattern.chunk, Pattern.chunk, Pattern.segments_cons h]
  rcases Pattern.segments_cases p source with hnone | ⟨stop, later, hgap⟩ | ⟨m, later, hm, hmatch⟩
  · rw [hnone]
    rfl
  · have hlonger : Text.slice (c :: source) 0 (1 + stop) = c :: Text.slice source 0 stop := by
      rw [Nat.add_comm]
      rfl
    rw [hgap, Segment.widen, List.flatMap_cons, List.flatMap_cons, ← hbehind]
    simp only [Segment.replace, plainBetween, hlonger]
    rfl
  · obtain ⟨token, tokens, htoken, hplain⟩ := hfound m hm
    have hpush : ∀ behind, pushPlain c (token :: behind) = .plain [c] :: token :: behind := by
      intro behind
      cases token with
      | plain t => exact absurd rfl (hplain t)
      | _ => rfl
    rw [hmatch, Segment.widen, List.flatMap_cons]
    · have hrest := hbehind (.found m :: later)
      simp only [Segment.replace, hfirst]
      refine congrArg (.plain [c] :: ·) hrest |>.trans ?_
      rw [List.flatMap_cons, Segment.replace, htoken, List.cons_append, hpush]
    · simp

end

/-! ## Cutting from the front -/

theorem directiveOf_append (front source : Text) (m : Match) :
    directiveOf (front ++ source) (m.shift front.length) = directiveOf source m := by
  simp only [directiveOf, Pattern.group?_shift, Pattern.items_shift]

theorem slice_middle (front part rest : Text) :
    Text.slice (front ++ part ++ rest) front.length (front.length + part.length) = part := by
  rw [Text.slice, List.append_assoc, List.drop_left, Nat.add_sub_cancel_left, List.take_left]

/-- A match of an alternative is a directive with the trim and the content of this one. -/
theorem directiveOf_hit (trim : Trim) (content rest : Text) :
    directiveOf (trim.opening ++ content ++ trim.closing ++ rest)
        ⟨0, (trim.hit content).stop, (trim.hit content).captures⟩ =
      [.directive (trim.opening ++ content ++ trim.closing) trim content] := by
  have htext : (⟨0, (trim.hit content).stop, (trim.hit content).captures⟩ : Match).items
      (trim.opening ++ content ++ trim.closing ++ rest) =
        trim.opening ++ content ++ trim.closing := by
    have hstop : (trim.hit content).stop = (trim.opening ++ content ++ trim.closing).length := by
      simp [Trim.hit, Nat.add_assoc]
    rw [Match.items, hstop, Text.slice, Nat.sub_zero, List.drop_zero, List.take_left]
  have hcontent : Text.slice (trim.opening ++ content ++ trim.closing ++ rest) trim.opening.length
      (trim.opening.length + content.length) = content := by
    rw [List.append_assoc]
    exact slice_middle _ _ _
  rw [directiveOf, htext]
  -- no other trim remembers anything
  cases trim <;>
    simpa [Trim.all, Match.group?, Match.extent?, Trim.hit, Trim.kind] using hcontent

theorem content?_sides (inside : Text) :
    (sides inside).1.content? inside = some (sides inside).2 := by
  obtain ⟨trim, -, hfound⟩ :=
    List.exists_of_findSome?_eq_some (findSome?_content? inside fun trim content => (trim, content))
  obtain ⟨content, hcontent, heq⟩ := Option.map_eq_some_iff.mp hfound
  obtain ⟨rfl, rfl⟩ := Prod.mk.inj heq
  exact hcontent

theorem eq_cons_of_afterTilde? {inside content : Text} (h : afterTilde? inside = some content) :
    inside = '~' :: content :=
  Text.eq_append_of_after? h

theorem eq_append_of_beforeTilde? {inside content : Text}
    (h : beforeTilde? inside = some content) : inside = content ++ ['~'] := by
  unfold beforeTilde? at h
  split at h
  · next hlast =>
      obtain rfl := Option.some.inj h
      exact (List.dropLast_append_getLast? _ hlast).symm
  · simp at h

/-- Nothing but the tildes is missing from the content. -/
theorem inBraces_of_content? {trim : Trim} {inside content : Text}
    (h : trim.content? inside = some content) :
    inBraces inside = trim.opening ++ content ++ trim.closing := by
  obtain ⟨behind, hleft, hright⟩ := Option.bind_eq_some_iff.mp h
  cases trim with
  | both =>
      obtain rfl := eq_cons_of_afterTilde? hleft
      obtain rfl := eq_append_of_beforeTilde? hright
      simp [inBraces, Trim.opening, Trim.closing]
  | left =>
      obtain rfl := eq_cons_of_afterTilde? hleft
      obtain rfl := Option.some.inj hright
      rfl
  | right =>
      obtain rfl := Option.some.inj hleft
      obtain rfl := eq_append_of_beforeTilde? hright
      simp [inBraces, Trim.opening, Trim.closing]
  | neither =>
      obtain rfl := Option.some.inj hleft
      obtain rfl := Option.some.inj hright
      rfl

/-- The directive of a match is the one that the direct scan finds. -/
theorem directiveOf_inBraces (inside rest : Text) :
    let hit := (sides inside).1.hit (sides inside).2
    hit.stop = (inBraces inside).length ∧
      directiveOf (inBraces inside ++ rest) ⟨0, hit.stop, hit.captures⟩ = [.ofInside inside] := by
  intro hit
  rw [Token.ofInside, inBraces_of_content? (content?_sides inside)]
  exact ⟨by simp [hit, Trim.hit, Nat.add_assoc], directiveOf_hit _ _ _⟩

/-- The directive at the start of a text is read to its end. -/
theorem splitDirectives_inBraces {inside rest : Text}
    (h : inside? (inBraces inside ++ rest) = some inside) :
    splitDirectives (inBraces inside ++ rest) = .ofInside inside :: splitDirectives rest := by
  have hmatch := matchAt?_directivePattern (inBraces inside ++ rest)
  rw [h] at hmatch
  obtain ⟨hstop, hdirective⟩ := directiveOf_inBraces inside rest
  have hcut := cutPlain_append directiveOf_append hmatch hstop (by simp [inBraces])
  rw [hdirective] at hcut
  exact hcut

theorem splitDirectives_cons {c : Char} {t : Text} (h : inside? (c :: t) = none) :
    splitDirectives (c :: t) = pushPlain c (splitDirectives t) := by
  have hmatch := matchAt?_directivePattern (c :: t)
  rw [h] at hmatch
  apply cutPlain_cons directiveOf_append hmatch
  intro m hm
  rw [matchAt?_directivePattern] at hm
  obtain ⟨inside, hinside, rfl⟩ := Option.map_eq_some_iff.mp hm
  obtain ⟨rest, rfl⟩ := inside?_eq_some hinside
  exact ⟨_, [], (directiveOf_inBraces inside rest).2, by simp [Token.ofInside]⟩

theorem splitDirectives_nil : splitDirectives [] = [] := by
  have hmatch : directivePattern.matchAt? #[] 0 = none := matchAt?_directivePattern []
  rw [splitDirectives, cutPlain, Pattern.chunk, Pattern.segments_nil hmatch]
  rfl

/-- What holds of the empty text, and is kept by putting a directive or a character that
starts none in front of a text, holds of every text. -/
@[elab_as_elim]
theorem directivesInduction {motive : Text → Prop} (nil : motive [])
    (directive : ∀ inside rest, inside? (inBraces inside ++ rest) = some inside → motive rest →
      motive (inBraces inside ++ rest))
    (cons : ∀ c t, inside? (c :: t) = none → motive t → motive (c :: t)) (t : Text) :
    motive t := by
  induction hlength : t.length using Nat.strongRecOn generalizing t with
  | ind n ih =>
      subst hlength
      cases hinside : inside? t with
      | some inside =>
          obtain ⟨rest, rfl⟩ := inside?_eq_some hinside
          have hshorter : rest.length < (inBraces inside ++ rest).length := by
            simp [inBraces]
            omega
          exact directive inside rest hinside (ih rest.length hshorter rest rfl)
      | none =>
          cases t with
          | nil => exact nil
          | cons c t => exact cons c t hinside (ih t.length (by simp) t rfl)

/-- The texts of the tokens make up the template. -/
theorem textOf_splitDirectives (source : Text) : textOf (splitDirectives source) = source := by
  induction source using directivesInduction with
  | nil => rw [splitDirectives_nil]; rfl
  | directive inside rest h ih =>
      rw [splitDirectives_inBraces h, textOf, List.flatMap_cons]
      exact congrArg (inBraces inside ++ ·) ih
  | cons c t h ih => rw [splitDirectives_cons h, textOf_pushPlain, ih]

end CommentMacro.Template
