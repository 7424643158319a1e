import CommentMacro.Document.Parse
import CommentMacro.Proofs.Document.Lines
import CommentMacro.Proofs.Document.Order
import CommentMacro.Proofs.Pattern.Scan
import CommentMacro.Proofs.Text.LineEnds

/-!
# A document is read alike with both line ends

The lines of a document without carriage returns are cut at the same places when its
line feeds are written with one (`splitLines_crlf`), if neither stands in the comment
sign. Putting tokens together goes by their kinds, so the same declarations and regions
are found, and a marker is out of order in one document if it is in the other
(`parse_crlf`).
-/

namespace CommentMacro.Document

/-- A token with a carriage return in front of every line feed. -/
def Token.crlf : Token → Token
  | comment t => comment t.crlf
  | lineBreak t => lineBreak t.crlf
  | block t => block t.crlf
  | marker t which => marker t.crlf which
  | macroHeader t name parameters => macroHeader t.crlf name parameters
  | tableHeader t name => tableHeader t.crlf name
  | indent t => indent t.crlf
  | macroDefinition t name parameters body => macroDefinition t.crlf name parameters body.crlf
  | tableDefinition t name body => tableDefinition t.crlf name body.crlf
  | invocation t call => invocation t.crlf call.crlf
  | region opening body closing => region opening.crlf body.crlf closing.crlf

@[simp] theorem Token.kind_crlf (token : Token) : token.crlf.kind = token.kind := by
  cases token <;> rfl

@[simp] theorem Token.marker?_crlf (token : Token) : token.crlf.marker? = token.marker? := by
  cases token <;> rfl

@[simp] theorem Token.text_crlf (token : Token) : token.crlf.text = token.text.crlf := by
  cases token with
  | region opening body closing => simp only [crlf, text, Text.crlf_append]
  | _ => rfl

theorem textOf_crlf (tokens : List Token) :
    textOf (tokens.map Token.crlf) = (textOf tokens).crlf := by
  induction tokens with
  | nil => rfl
  | cons token tokens ih =>
      rw [List.map_cons, textOf_cons, textOf_cons, Text.crlf_append, ih, Token.text_crlf]

/-- Between the comment sign and the line break there is no line feed. -/
theorem crlf_of_fromPiece {token : Token} (h : FromPiece token) (hfeed : '\n' ∉ token.text) :
    token.crlf = token := by
  have hline := h.1 []
  cases token with
  | comment t => exact absurd rfl (h.2.1 t)
  | lineBreak t => exact absurd rfl (h.2.2 t)
  | block t => exact congrArg Token.block (Text.crlf_of_not_mem hfeed)
  | marker t which => exact congrArg (Token.marker · which) (Text.crlf_of_not_mem hfeed)
  | macroHeader t name parameters =>
      exact congrArg (Token.macroHeader · name parameters) (Text.crlf_of_not_mem hfeed)
  | tableHeader t name => exact congrArg (Token.tableHeader · name) (Text.crlf_of_not_mem hfeed)
  | indent t => exact congrArg Token.indent (Text.crlf_of_not_mem hfeed)
  | _ => exact hline.elim

theorem lineFeed_not_mem_of_mem_splitPiece {t : Text} {token : Token} (h : '\n' ∉ t)
    (hmem : token ∈ splitPiece t) : '\n' ∉ token.text := by
  intro hfeed
  apply h
  rw [← textOf_splitPiece t]
  exact List.mem_flatMap.mpr ⟨token, hmem, hfeed⟩

theorem splitPiece_crlf {t : Text} (h : '\n' ∉ t) :
    (splitPiece t).map Token.crlf = splitPiece t := by
  refine (List.map_congr_left fun token hmem => ?_).trans (List.map_id _)
  have hfeed := lineFeed_not_mem_of_mem_splitPiece h hmem
  exact crlf_of_fromPiece (fromPiece_of_mem_splitPiece hmem) hfeed

/-! ## Lines -/

def Piece.crlf : Piece → Piece
  | lineBreak t => lineBreak t.crlf
  | piece => piece

theorem pushInner_crlf (c : Char) (pieces : List Piece) :
    pushInner c (pieces.map Piece.crlf) = (pushInner c pieces).map Piece.crlf := by
  cases pieces with
  | nil => rfl
  | cons piece pieces => cases piece <;> rfl

/-- What a comment sign has to be for lines to be cut alike with both line ends. -/
structure OneLineSign (sign : Text) : Prop extends ProperSign sign where
  no_return : '\r' ∉ sign

section

variable {sign : Text} (hsign : OneLineSign sign)
include hsign

/-- A line break is read wherever one stands: no sign begins with it. -/
theorem piecesFrom_lineBreak {stop : Text} (hstop : stop = ['\n'] ∨ stop = ['\r', '\n'])
    (fresh : Bool) (rest : Text) :
    piecesFrom sign 0 fresh (stop ++ rest) = .lineBreak stop :: piecesFrom sign 0 true rest := by
  obtain ⟨c, later, rfl⟩ := List.exists_cons_of_ne_nil hsign.ne_nil
  have hreturn : c ≠ '\r' := fun heq => hsign.no_return (heq ▸ List.mem_cons_self)
  have hfeed : c ≠ '\n' := fun heq => hsign.no_lineFeed (heq ▸ List.mem_cons_self)
  rcases hstop with rfl | rfl
  · simp [piecesFrom, emptySign, lineBreak?, List.isPrefixOf, hfeed]
  · simp [piecesFrom, emptySign, lineBreak?, List.isPrefixOf, hreturn]

theorem piecesFrom_cons {fresh : Bool} {c : Char} {t : Text}
    (hopens : ¬(fresh = true ∧ sign.isPrefixOf (c :: t) = true)) (hfeed : c ≠ '\n')
    (hreturn : c ≠ '\r') :
    piecesFrom sign 0 fresh (c :: t) = pushInner c (piecesFrom sign 0 false t) := by
  have hnot : ¬(fresh && !sign.isEmpty && sign.isPrefixOf (c :: t)) = true := by
    simp only [Bool.and_eq_true]
    exact fun h => hopens ⟨h.1.1, h.2⟩
  rw [piecesFrom, if_neg hnot, emptySign_eq_nil hsign.toProperSign,
    lineBreak?_eq_none hfeed fun heq => absurd heq hreturn]
  rfl

theorem piecesFrom_crlf (t : Text) (hreturn : '\r' ∉ t) (fresh : Bool) :
    piecesFrom sign 0 fresh t.crlf = (piecesFrom sign 0 fresh t).map Piece.crlf := by
  have hopening := Text.isPrefixOf_crlf hsign.no_return hsign.no_lineFeed t
  by_cases hopens : fresh = true ∧ sign.isPrefixOf t = true
  · -- a line that starts with the sign
    obtain ⟨rfl, hbegins⟩ := hopens
    obtain ⟨rest, rfl⟩ := List.isPrefixOf_iff_prefix.mp hbegins
    have hshorter : rest.length < (sign ++ rest).length := by
      have := List.length_pos_iff.mpr hsign.ne_nil
      simp
      omega
    rw [Text.crlf_append, Text.crlf_of_not_mem hsign.no_lineFeed,
      piecesFrom_sign hsign.toProperSign, piecesFrom_sign hsign.toProperSign,
      piecesFrom_crlf rest (fun hmem => hreturn (List.mem_append_right _ hmem)) false]
    rfl
  · rw [← hopening] at hopens
    cases t with
    | nil => simp [piecesFrom, emptySign_eq_nil hsign.toProperSign]
    | cons c t =>
        rw [List.mem_cons, not_or] at hreturn
        by_cases hfeed : c = '\n'
        · subst hfeed
          have hlater := piecesFrom_crlf t hreturn.2 true
          have hcrlf := piecesFrom_lineBreak hsign (.inr rfl) fresh (Text.crlf t)
          have hline := piecesFrom_lineBreak hsign (.inl rfl) fresh t
          simp only [List.cons_append, List.nil_append] at hcrlf hline
          rw [Text.crlf_lineFeed, hcrlf, hline, hlater]
          rfl
        · rw [piecesFrom_cons hsign (hopening ▸ hopens) hfeed (Ne.symm hreturn.1)]
          rw [Text.crlf_cons hfeed] at hopens ⊢
          rw [piecesFrom_cons hsign hopens hfeed (Ne.symm hreturn.1),
            piecesFrom_crlf t hreturn.2 false, pushInner_crlf]
termination_by t.length

/-- The lines are cut at the same places. -/
theorem splitLines_crlf {source : Text} (hreturn : '\r' ∉ source) :
    splitLines sign source.crlf = (splitLines sign source).map Token.crlf := by
  rw [splitLines, splitLines, piecesFrom_crlf hsign source hreturn, List.flatMap_map,
    List.map_flatMap]
  refine List.flatMap_congr fun piece hmem => ?_
  have hplain := plain_of_mem_piecesFrom piece hmem
  cases piece with
  | sign t =>
      obtain rfl : t = sign := hplain
      simp [Piece.crlf, Piece.tokens, Token.crlf, Text.crlf_of_not_mem hsign.no_lineFeed]
  | lineBreak t => rfl
  | inner t => exact (splitPiece_crlf hplain).symm

end

/-! ## Declarations and regions -/

theorem bodyText_crlf (token : Token) : bodyText token.crlf = (bodyText token).crlf := by
  cases token <;> rfl

theorem callText_block {t : Text} (h : t.head? ≠ some ' ') : callText (.block t) = t := by
  unfold callText
  split
  · next heq =>
      rw [Token.block.inj heq] at h
      exact absurd rfl h
  · next heq => exact (Token.block.inj heq).symm
  · next heq => exact Token.noConfusion heq
  · next hblock _ => exact absurd rfl (hblock t)

theorem callText_crlf (token : Token) : callText token.crlf = (callText token).crlf := by
  cases token with
  | block t =>
      by_cases hspace : t.head? = some ' '
      · obtain ⟨t, rfl⟩ := List.head?_eq_some_iff.mp hspace
        rw [Token.crlf, Text.crlf_cons (by decide)]
        rfl
      · have hspace' : t.crlf.head? ≠ some ' ' := by
          rwa [Ne, Text.head?_crlf_eq_some (by decide) (by decide)]
        rw [Token.crlf, callText_block hspace', callText_block hspace]
  | _ => rfl

theorem definitionBody_crlf (run : List Token) :
    definitionBody (run.map Token.crlf) = (definitionBody run).crlf := by
  rw [definitionBody, definitionBody, ← List.map_drop, ← List.map_dropLast, List.flatMap_map,
    Text.crlf_flatMap]
  congr 1
  funext token
  exact bodyText_crlf token

theorem declare_crlf (run : List Token) : declare (run.map Token.crlf) = (declare run).crlf := by
  have hcall : Token.invocation (textOf (run.map Token.crlf))
      ((run.map Token.crlf).flatMap callText) =
        (Token.invocation (textOf run) (run.flatMap callText)).crlf := by
    rw [Token.crlf, textOf_crlf, List.flatMap_map, Text.crlf_flatMap]
    congr 2
    funext token
    exact callText_crlf token
  have htext := textOf_crlf run
  have hbody := definitionBody_crlf run
  rcases run with _ | ⟨first, _ | ⟨second, rest⟩⟩
  · exact hcall
  · exact hcall
  · cases second with
    | macroHeader t name parameters =>
        exact congrArg₂ (Token.macroDefinition · name parameters ·) htext hbody
    | tableHeader t name => exact congrArg₂ (Token.tableDefinition · name ·) htext hbody
    | _ => exact hcall

theorem groupRun_crlf (run : List Token) :
    groupRun (run.map Token.crlf) = (groupRun run).map Token.crlf := by
  refine Pattern.rebuild_map declaration Token.kind_crlf (fun m => ?_) run
  rw [Pattern.items_map, declare_crlf]
  rfl

theorem groupDeclarations_crlf (tokens : List Token) :
    groupDeclarations (tokens.map Token.crlf) = (groupDeclarations tokens).map Token.crlf := by
  refine Pattern.rebuild_map declarations Token.kind_crlf (fun m => ?_) tokens
  rw [Pattern.items_map, groupRun_crlf]

theorem regionOf_crlf (tokens : List Token) (m : Match) :
    regionOf (tokens.map Token.crlf) m = (regionOf tokens m).crlf := by
  rw [regionOf, regionOf, Token.crlf, Pattern.slice_map, Pattern.getD_group?_map,
    Pattern.getD_group?_map, textOf_crlf, textOf_crlf, textOf_crlf]

theorem collectRegions_crlf (tokens : List Token) :
    collectRegions (tokens.map Token.crlf) = (collectRegions tokens).map Token.crlf := by
  refine Pattern.rebuild_map generated Token.kind_crlf (fun m => ?_) tokens
  rw [regionOf_crlf]
  rfl

/-! ## Markers out of order -/

def MarkerFault.crlf (source : Text) (fault : MarkerFault) : MarkerFault :=
  ⟨fault.misplacement, (Text.crlf (source.take fault.start)).length,
    (Text.crlf (source.take fault.stop)).length⟩

theorem validateFrom_crlf (phase : Phase) (front tokens : List Token) :
    validateFrom phase (textOf front).crlf.length (tokens.map Token.crlf) =
      (validateFrom phase (textOf front).length tokens).mapError
        (MarkerFault.crlf (textOf (front ++ tokens))) := by
  induction tokens generalizing phase front with
  | nil => rfl
  | cons token tokens ih =>
      -- the offset behind the token is the length of what is in front of the next
      have hstop : (textOf front).length + token.text.length =
          (textOf (front ++ [token])).length := by simp
      have hstop' : (textOf front).crlf.length + token.crlf.text.length =
          (textOf (front ++ [token])).crlf.length := by
        simp [Text.crlf_append]
      have hlater := fun next => ih next (front ++ [token])
      rw [List.append_assoc, List.singleton_append] at hlater
      simp only [List.map_cons, validateFrom, Token.marker?_crlf, hstop, hstop']
      cases token.marker? with
      | none => exact hlater phase
      | some which =>
          simp only
          cases phase.next which with
          | ok next => exact hlater next
          | error misplacement =>
              have hfront : (textOf (front ++ token :: tokens)).take (textOf front).length =
                  textOf front := by
                rw [textOf_append, List.take_left]
              have hbehind : (textOf (front ++ token :: tokens)).take
                  (textOf (front ++ [token])).length = textOf (front ++ [token]) := by
                rw [List.append_cons front token tokens, textOf_append (front ++ [token]),
                  List.take_left]
              simp only [Except.mapError, MarkerFault.crlf, hfront, hbehind]

theorem parse_eq (sign source : Text) :
    parse sign source =
      match validate (splitLines sign source) with
      | .ok _ => .ok (collectRegions (groupDeclarations (splitLines sign source)))
      | .error fault => .error fault := by
  simp only [parse, bind, Except.bind, pure, Except.pure]
  cases validate (splitLines sign source) <;> rfl

/-- A document is read alike with both line ends. -/
theorem parse_crlf {sign source : Text} (hsign : OneLineSign sign) (hreturn : '\r' ∉ source) :
    parse sign source.crlf =
      match parse sign source with
      | .ok tokens => .ok (tokens.map Token.crlf)
      | .error fault => .error (fault.crlf source) := by
  have hvalidate := validateFrom_crlf .outside [] (splitLines sign source)
  rw [List.nil_append, textOf_splitLines, ← splitLines_crlf hsign hreturn] at hvalidate
  have hcrlf : validate (splitLines sign source.crlf) =
      (validate (splitLines sign source)).mapError (MarkerFault.crlf source) := hvalidate
  rw [parse_eq, parse_eq, hcrlf]
  cases validate (splitLines sign source) with
  | error fault => rfl
  | ok phase =>
      simp only [Except.mapError]
      rw [splitLines_crlf hsign hreturn, groupDeclarations_crlf, collectRegions_crlf]

/-- The marker that is out of order is the same with both line ends. -/
theorem slice_crlf {sign source : Text} {fault : MarkerFault}
    (h : parse sign source = .error fault) :
    ∃ which : Marker, Text.slice source fault.start fault.stop = which.text ∧
      Text.slice source.crlf (fault.crlf source).start (fault.crlf source).stop = which.text := by
  have hvalidate : validate (splitLines sign source) = .error fault := by
    rw [parse_eq] at h
    cases hphase : validate (splitLines sign source) with
    | error other => simpa [hphase] using h
    | ok phase => simp [hphase] at h
  obtain ⟨before, which, after, hsource, hstart, hstop⟩ := exists_marker_of_validate hvalidate
  have hcrlf : which.text.crlf = which.text :=
    Text.crlf_of_not_mem (by cases which <;> decide)
  refine ⟨which, ?_, ?_⟩
  · rw [hstart, hstop, hsource, Text.slice_append]
  · rw [← List.length_append] at hstop
    rw [MarkerFault.crlf, hstart, hstop, hsource, List.take_left, ← List.append_assoc,
      List.take_left, List.append_assoc, Text.crlf_append, Text.crlf_append, Text.crlf_append,
      hcrlf, List.length_append, Text.slice_append]

end CommentMacro.Document
