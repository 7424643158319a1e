import CommentMacro.Proofs.Pattern.Scan
import CommentMacro.Proofs.Template.Abreast
import CommentMacro.Proofs.Template.Keeping
import CommentMacro.Proofs.Template.Runs
import CommentMacro.Proofs.Text.LineEnds
import CommentMacro.Template.Parse

/-!
# A template is read and rendered alike with both line ends

No directive reaches over a line end, and a line end of either kind is white space of one
class. So a template with a carriage return in front of every line feed is read as the
same tokens with other plain text (`parse_crlf`), and if no value holds a line feed it is
rendered with the same carriage returns in the output (`alike_render_crlf`).
-/

namespace CommentMacro.Template

open Text (crlf crlf_cons crlf_lineFeed crlf_of_not_mem)

/-! ## Directives -/

theorem closesBraces_crlf (t : Text) : closesBraces (crlf t) = closesBraces t :=
  Text.isPrefixOf_crlf (by decide) (by decide) t

theorem untilClosed?_crlf (t : Text) : untilClosed? (crlf t) = untilClosed? t := by
  induction t with
  | nil => rfl
  | cons c t ih =>
      by_cases hfeed : c = '\n'
      · subst hfeed
        rw [crlf_lineFeed]
        rfl
      · have hcloses := closesBraces_crlf (c :: t)
        rw [crlf_cons hfeed] at hcloses ⊢
        rw [untilClosed?, untilClosed?, hcloses, ih]

theorem inside?_crlf (t : Text) : inside? (crlf t) = inside? t := by
  rw [inside?, inside?, Text.after?_crlf (by decide) (by decide)]
  cases Text.after? ['\x7b', '\x7b'] t with
  | none => rfl
  | some rest => exact untilClosed?_crlf rest

theorem pushPlain_respell {c : Char} (hfeed : c ≠ '\n') (tokens : List (Token .raw)) :
    pushPlain c (tokens.map (Token.respell crlf)) =
      (pushPlain c tokens).map (Token.respell crlf) := by
  cases tokens with
  | nil => simp [pushPlain, Token.respell, crlf_cons hfeed]
  | cons token tokens => cases token <;> simp [pushPlain, Token.respell, crlf_cons hfeed]

theorem pushPlain_lineFeed (tokens : List (Token .raw)) :
    pushPlain '\r' (pushPlain '\n' (tokens.map (Token.respell crlf))) =
      (pushPlain '\n' tokens).map (Token.respell crlf) := by
  cases tokens with
  | nil => rfl
  | cons token tokens => cases token <;> rfl

/-- No directive reaches over a line end. -/
theorem splitDirectives_crlf (t : Text) :
    splitDirectives (crlf t) = (splitDirectives t).map (Token.respell crlf) := by
  induction t using directivesInduction with
  | nil =>
      have hnil : crlf [] = [] := rfl
      rw [hnil, splitDirectives_nil]
      rfl
  | directive inside rest h ih =>
      have hfeed := lineFeed_not_mem_of_inside? h
      have hbraces : crlf (inBraces inside) = inBraces inside :=
        crlf_of_not_mem (by simp [inBraces, hfeed])
      have hcrlf := inside?_crlf (inBraces inside ++ rest)
      rw [h, Text.crlf_append, hbraces] at hcrlf
      rw [Text.crlf_append, hbraces, splitDirectives_inBraces hcrlf, splitDirectives_inBraces h,
        ih]
      rfl
  | cons c t h ih =>
      rw [splitDirectives_cons h]
      by_cases hfeed : c = '\n'
      · subst hfeed
        rw [crlf_lineFeed, splitDirectives_cons (inside?_cons (by decide) _),
          splitDirectives_cons (inside?_cons (by decide) _), ih, pushPlain_lineFeed]
      · have hcrlf := inside?_crlf (c :: t)
        rw [h, crlf_cons hfeed] at hcrlf
        rw [crlf_cons hfeed, splitDirectives_cons hcrlf, ih, pushPlain_respell hfeed]

/-! ## White space -/

@[simp] theorem blankKind_crlf (t : Text) : blankKind (crlf t) = blankKind t := by
  cases t with
  | nil => rfl
  | cons c t =>
      by_cases hfeed : c = '\n'
      · subst hfeed
        rfl
      · rw [crlf_cons hfeed]
        unfold blankKind
        split <;> simp_all

@[simp] theorem Token.kind_respell (token : Token .raw) :
    (token.respell crlf).kind = token.kind := by
  cases token with
  | blank t => exact blankKind_crlf t
  | _ => rfl

theorem pushRun_respell {c : Char} (hfeed : c ≠ '\n') (tokens : List (Token .raw)) :
    pushRun c (tokens.map (Token.respell crlf)) = (pushRun c tokens).map (Token.respell crlf) := by
  cases hclass : blankClass? c with
  | none => simp only [pushRun, hclass, pushPlain_respell hfeed]
  | some k =>
      cases tokens with
      | nil => simp [pushRun, hclass, Token.respell, crlf_cons hfeed]
      | cons token tokens =>
          cases token with
          | blank run =>
              by_cases hkind : blankKind run = k <;>
                simp [pushRun, hclass, hkind, Token.respell, crlf_cons hfeed]
          | _ => simp [pushRun, hclass, Token.respell, crlf_cons hfeed]

theorem pushRun_lineFeed (tokens : List (Token .raw)) :
    pushRun '\r' (pushRun '\n' (tokens.map (Token.respell crlf))) =
      (pushRun '\n' tokens).map (Token.respell crlf) := by
  have hreturn : blankClass? '\r' = some 'N' := rfl
  have hfeed : blankClass? '\n' = some 'N' := rfl
  have hkinds : ∀ run, blankKind ('\n' :: run) = 'N' := fun _ => rfl
  cases tokens with
  | nil => rfl
  | cons token tokens =>
      cases token with
      | blank run =>
          by_cases hkind : blankKind run = 'N' <;>
            simp [pushRun, hreturn, hfeed, hkinds, hkind, Token.respell, crlf_lineFeed]
      | _ => rfl

/-- A line end of either kind is white space of one class. -/
theorem splitRuns_crlf (t : Text) :
    splitRuns (crlf t) = (splitRuns t).map (Token.respell crlf) := by
  induction t with
  | nil =>
      have hnil : crlf [] = [] := rfl
      rw [hnil, splitRuns_nil]
      rfl
  | cons c t ih =>
      by_cases hfeed : c = '\n'
      · subst hfeed
        rw [crlf_lineFeed, splitRuns_cons, splitRuns_cons, splitRuns_cons, ih, pushRun_lineFeed]
      · rw [crlf_cons hfeed, splitRuns_cons, splitRuns_cons, ih, pushRun_respell hfeed]

theorem splitBlanks_respell (tokens : List (Token .raw)) :
    splitBlanks (tokens.map (Token.respell crlf)) =
      (splitBlanks tokens).map (Token.respell crlf) := by
  rw [splitBlanks, splitBlanks, List.flatMap_map, List.map_flatMap]
  congr 1
  funext token
  cases token with
  | plain t => exact splitRuns_crlf t
  | _ => rfl

theorem trimBlanks_respell (tokens : List (Token .raw)) :
    trimBlanks (tokens.map (Token.respell crlf)) =
      (trimBlanks tokens).map (Token.respell crlf) :=
  Pattern.rebuild_map trimPattern Token.kind_respell
    (fun m => Pattern.getD_group?_map _ m trimName tokens) tokens

/-! ## Meanings -/

theorem interpret?_respell {text content : Text} {token : Token .interpreted}
    (h : interpret? text content = some token) (spell : Text → Text) :
    token.respell spell = token := by
  obtain ⟨form, -, rfl⟩ := Option.map_eq_some_iff.mp h
  cases form <;> rfl

/-- What a directive says holds no plain text. -/
theorem meaning_respell (token : Token .raw) (spell : Text → Text) :
    (token.respell spell).meaning = token.meaning.map (Token.respell spell) := by
  cases token with
  | directive text trim content =>
      simp only [Token.respell, Token.meaning]
      cases hmeaning : interpret? text content with
      | none => rfl
      | some meaning => exact congrArg Except.ok (interpret?_respell hmeaning spell).symm
  | _ => rfl

theorem interpretAll_respell {σ : Type} (listener : Listener σ) (tokens : List (Token .raw)) :
    interpretAll listener (tokens.map (Token.respell crlf)) =
      (do return (← interpretAll listener tokens).map (Token.respell crlf)) := by
  induction tokens with
  | nil => rfl
  | cons token tokens ih =>
      rw [List.map_cons, interpretAll, interpretAll, meaning_respell, ih]
      cases token.meaning with
      | ok meaning => simp [Except.map]
      | error content => simp [Except.map]

/-- A template is read as the same tokens with both line ends, and the same directives say
nothing. -/
theorem parse_crlf {σ : Type} (listener : Listener σ) (source : Text) :
    parse listener (crlf source) =
      (do return (← parse listener source).map (Token.respell crlf)) := by
  rw [parse, parse, splitDirectives_crlf, splitBlanks_respell, trimBlanks_respell,
    interpretAll_respell]

/-! ## Rendering -/

mutual

/-- Inside a list or a record a value stands on one line. -/
theorem lineFeed_not_mem_literal : ∀ value : Value, '\n' ∉ value.literal
  | .text t => by
      rw [Value.literal]
      exact Text.lineFeed_not_mem_quoted t
  | .integer n => by
      rw [Value.literal]
      exact Text.lineFeed_not_mem_ofInt n
  | .boolean true => by decide
  | .boolean false => by decide
  | .absent => by decide
  | .list items => by
      rw [Value.literal]
      simp [lineFeed_not_mem_literalItems items]
  | .record fields => by
      rw [Value.literal]
      simp [lineFeed_not_mem_literalFields fields]

theorem lineFeed_not_mem_literalItems : ∀ items : List Value, '\n' ∉ Value.literalItems items
  | [] => by simp [Value.literalItems]
  | [item] => by
      rw [Value.literalItems]
      exact lineFeed_not_mem_literal item
  | first :: second :: items => by
      rw [Value.literalItems]
      · simp [lineFeed_not_mem_literal first, lineFeed_not_mem_literalItems (second :: items)]
      · simp

theorem lineFeed_not_mem_literalFields :
    ∀ fields : List (Text × Value), '\n' ∉ Value.literalFields fields
  | [] => by simp [Value.literalFields]
  | [(name, value)] => by
      rw [Value.literalFields]
      simp [Text.lineFeed_not_mem_quoted, lineFeed_not_mem_literal value]
  | (name, value) :: second :: fields => by
      rw [Value.literalFields]
      · simp [Text.lineFeed_not_mem_quoted, lineFeed_not_mem_literal value,
          lineFeed_not_mem_literalFields (second :: fields)]
      · simp

end

/-- No text in a scope holds a line feed. -/
def OneLineScope (scope : Scope) : Prop :=
  ∀ frame ∈ scope.frames, ∀ field ∈ frame, field.2.Every ('\n' ∉ ·)

theorem oneLineScope_iff {scope : Scope} :
    OneLineScope scope ↔ scope.Everywhere fun _ value => value.Every ('\n' ∉ ·) :=
  Iff.rfl

namespace OneLineScope

variable {scope : Scope}

theorem bind (h : OneLineScope scope) (name : Option Text) {value : Value}
    (hvalue : value.Every ('\n' ∉ ·)) : OneLineScope (scope.bind name value) :=
  oneLineScope_iff.mpr ((oneLineScope_iff.mp h).bind name fun _ => hvalue)

theorem bindData (h : OneLineScope scope) (name : Text) {value : Value}
    (hvalue : value.Every ('\n' ∉ ·)) : OneLineScope (scope.bindData name value) := by
  unfold Scope.bindData
  split
  · next data hlast =>
      have hdata := h data (List.mem_of_getLast? hlast)
      rw [OneLineScope, List.forall_mem_append, List.forall_mem_singleton]
      refine ⟨fun frame hmem => h frame (List.dropLast_subset _ hmem), ?_⟩
      intro field hmem
      rcases Bindings.mem_insert hmem with heq | hmem
      · exact heq ▸ hvalue
      · exact hdata field hmem
  · exact h

theorem enter (h : OneLineScope scope) : OneLineScope scope.enter :=
  oneLineScope_iff.mpr (oneLineScope_iff.mp h).enter

theorem leave (h : OneLineScope scope) : OneLineScope scope.leave :=
  oneLineScope_iff.mpr (oneLineScope_iff.mp h).leave

end OneLineScope

/-- The same scope, without line feeds. -/
def SameScope (first second : Scope) : Prop :=
  second = first ∧ OneLineScope first

theorem SameScope.map {first second : Scope} (h : SameScope first second) (change : Scope → Scope)
    (hchange : OneLineScope first → OneLineScope (change first)) :
    SameScope (change first) (change second) := by
  obtain ⟨rfl, hscope⟩ := h
  exact ⟨rfl, hchange hscope⟩

namespace Setting

variable {σ : Type} {setting : Setting σ}

theorem abreast_of_sameScope
    (harguments : ∀ value ∈ setting.arguments, value.Every ('\n' ∉ ·)) :
    Abreast crlf setting (fun _ => True) ('\n' ∉ ·) SameScope where
  find_eq h _ := by rw [h.1]
  known_found h hfind :=
    (oneLineScope_iff.mp h.2).find? hfind
  known_argument := harguments
  readable_known _ := trivial
  spell_known := crlf_of_not_mem
  spell_literal value := crlf_of_not_mem (lineFeed_not_mem_literal value)
  spell_append := Text.crlf_append

theorem levelsAbreast_of_sameScope
    (harguments : ∀ value ∈ setting.arguments, value.Every ('\n' ∉ ·)) :
    LevelsAbreast crlf id (Token.respell crlf) setting setting (fun _ => True)
      (fun row => row.Every ('\n' ∉ ·)) fun _ => Alongside SameScope :=
  levelsAbreast_of_abreast (fun _ => abreast_of_sameScope harguments)
    (fun h => h.map _ OneLineScope.enter) (fun h => h.map _ OneLineScope.leave)
    fun name _ hvalue h => h.map (·.bind name _) (·.bind name hvalue)

end Setting

def Macro.respell (spell : Text → Text) (definition : Macro) : Macro :=
  { definition with tokens := definition.tokens.map (Token.respell spell) }

/-- The output has the same line ends as the template, if no line feed comes from an
argument or from the scope. -/
theorem alike_render_crlf {σ : Type} (definition : Macro) {arguments : List Value}
    (harguments : ∀ value ∈ arguments, value.Every ('\n' ∉ ·)) (listener : Listener σ) :
    Setting.Alike SameScope (fun text text' => text' = crlf text)
      (definition.render arguments listener)
      ((definition.respell crlf).render arguments listener) := by
  rw [Macro.render, Macro.render, Macro.respell,
    LoopTree.build_map (Setting.keepsShape_respell crlf)]
  exact (Setting.levelsAbreast_of_sameScope harguments).renderTree _ 0 fun _ _ => trivial

end CommentMacro.Template
