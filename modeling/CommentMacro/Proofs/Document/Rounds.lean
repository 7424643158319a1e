import CommentMacro.Proofs.Document.Order
import Mathlib.Computability.RegularExpressions

/-!
# The rounds that markers go

Markers in order go rounds (`rounds`): one start marker or more, a generate marker, an
end marker. A document may end within a round, so what it holds has only to be the front
of whole rounds (`InOrder`). The validator accepts these sequences of markers and no
others, and of a document that it refuses it points at the first marker that cannot be
the next one in any rounds (`validate_splitLines_iff`).

What may still come in a phase makes up a language of its own (`ahead`). A marker in
front of it leads to the language of the next phase (`cons_mem_ahead_iff`), so that the
languages of the phases take the place of the rounds in the induction on the markers.
-/

namespace CommentMacro.Document

open RegularExpression
open scoped Computability

def rounds : RegularExpression Marker :=
  star (char .start * star (char .start) * char .generate * char .finish)

/-- Markers that can be gone on with to whole rounds. -/
def InOrder (markers : List Marker) : Prop :=
  ∃ whole ∈ rounds.matches', markers <+: whole

def Marker.phase : Marker → Phase
  | start => .declaring
  | generate => .generating
  | finish => .outside

/-- The phase behind markers in order: the last of them tells it. -/
def phaseBehind (markers : List Marker) : Phase :=
  markers.getLast?.elim .outside Marker.phase

/-! ## What may come in a phase -/

/-- The sequences of markers that complete the rounds from a phase on. -/
def Phase.ahead : Phase → Language Marker
  | outside => rounds.matches'
  | declaring => {[.start]}∗ * ({[.generate]} * ({[.finish]} * rounds.matches'))
  | generating => {[.finish]} * rounds.matches'

theorem cons_mem_singleton_mul_iff {α : Type} {a item : α} {items : List α}
    {language : Language α} :
    item :: items ∈ ({[a]} : Language α) * language ↔ item = a ∧ items ∈ language := by
  constructor
  · rintro ⟨_, rfl, rest, hrest, heq⟩
    obtain ⟨rfl, rfl⟩ := List.cons.inj heq
    exact ⟨rfl, hrest⟩
  · rintro ⟨rfl, hitems⟩
    exact ⟨[item], rfl, items, hitems, rfl⟩

/-- Outside, all rounds may be over, or a start marker begins the next one. -/
theorem ahead_outside :
    Phase.outside.ahead = 1 + {[Marker.start]} * Phase.declaring.ahead := by
  simp only [Phase.ahead, rounds, matches']
  conv_lhs => rw [← Language.one_add_self_mul_kstar_eq_kstar]
  simp only [mul_assoc]

/-- Among declarations a further start marker may come, or the generate marker. -/
theorem ahead_declaring :
    Phase.declaring.ahead =
      {[Marker.generate]} * Phase.generating.ahead + {[Marker.start]} * Phase.declaring.ahead := by
  simp only [Phase.ahead]
  conv_lhs => rw [← Language.one_add_self_mul_kstar_eq_kstar]
  rw [add_mul, one_mul, mul_assoc]

/-- What may come in a phase is what may come in the next one, behind the marker that
leads there. -/
theorem cons_mem_ahead_iff {phase : Phase} {which : Marker} {markers : List Marker} :
    which :: markers ∈ phase.ahead ↔
      ∃ next, phase.next which = .ok next ∧ markers ∈ next.ahead := by
  cases phase with
  | outside =>
      rw [ahead_outside, Language.mem_add, Language.mem_one, cons_mem_singleton_mul_iff]
      cases which <;> simp [Phase.next]
  | declaring =>
      rw [ahead_declaring, Language.mem_add, cons_mem_singleton_mul_iff,
        cons_mem_singleton_mul_iff]
      cases which <;> simp [Phase.next]
  | generating =>
      rw [Phase.ahead, cons_mem_singleton_mul_iff]
      cases which <;> simp [Phase.next, Phase.ahead]

/-- Every phase can be completed. -/
theorem exists_mem_ahead (phase : Phase) : ∃ markers, markers ∈ phase.ahead := by
  have houtside : [] ∈ Phase.outside.ahead := by
    rw [ahead_outside, Language.mem_add]
    exact .inl Language.nil_mem_one
  have hgenerating : [.finish] ∈ Phase.generating.ahead :=
    cons_mem_ahead_iff.mpr ⟨.outside, rfl, houtside⟩
  cases phase with
  | outside => exact ⟨_, houtside⟩
  | declaring =>
      have hgenerate : Phase.declaring.next .generate = .ok .generating := rfl
      exact ⟨_, cons_mem_ahead_iff.mpr ⟨_, hgenerate, hgenerating⟩⟩
  | generating => exact ⟨_, hgenerating⟩

/-- The machine goes through markers if, and only if, the phase can be completed with
them in front. -/
theorem exists_append_mem_ahead_iff {phase : Phase} {markers : List Marker} :
    (∃ rest, markers ++ rest ∈ phase.ahead) ↔
      ∃ last, markers.foldlM Phase.next phase = .ok last := by
  induction markers generalizing phase with
  | nil => exact ⟨fun _ => ⟨phase, rfl⟩, fun _ => exists_mem_ahead phase⟩
  | cons which markers ih =>
      simp only [List.cons_append, cons_mem_ahead_iff, List.foldlM_cons]
      cases hnext : phase.next which with
      | error misplacement => simp [bind, Except.bind]
      | ok next => simpa [bind, Except.bind] using ih

/-! ## Markers in order -/

theorem foldlM_next_concat_eq_ok_iff {phase last : Phase} {markers : List Marker}
    {which : Marker} :
    (markers ++ [which]).foldlM Phase.next phase = .ok last ↔
      ∃ middle, markers.foldlM Phase.next phase = .ok middle ∧ middle.next which = .ok last := by
  rw [List.foldlM_append]
  cases markers.foldlM Phase.next phase with
  | error misplacement => simp [bind, Except.bind]
  | ok middle =>
      cases hnext : middle.next which <;>
        simp [bind, Except.bind, pure, Except.pure, hnext]

theorem phase_of_next {phase next : Phase} {which : Marker} (h : phase.next which = .ok next) :
    next = which.phase := by
  cases phase <;> cases which <;> simp_all [Phase.next, Marker.phase]

/-- The last of the markers tells the phase behind them. -/
theorem phaseBehind_of_foldlM {markers : List Marker} {last : Phase}
    (h : markers.foldlM Phase.next .outside = .ok last) : last = phaseBehind markers := by
  rcases List.eq_nil_or_concat markers with rfl | ⟨front, which, rfl⟩
  · exact (Except.ok.inj h).symm
  · rw [List.concat_eq_append] at h ⊢
    obtain ⟨middle, -, hnext⟩ := foldlM_next_concat_eq_ok_iff.mp h
    rw [phaseBehind, List.getLast?_concat]
    exact phase_of_next hnext

/-- Markers are in order if the machine goes through them. -/
theorem inOrder_iff {markers : List Marker} :
    InOrder markers ↔ ∃ last, markers.foldlM Phase.next .outside = .ok last := by
  rw [← exists_append_mem_ahead_iff]
  constructor
  · rintro ⟨whole, hwhole, rest, rfl⟩
    exact ⟨rest, hwhole⟩
  · rintro ⟨rest, hmem⟩
    exact ⟨markers ++ rest, hmem, rest, rfl⟩

theorem foldlM_next_eq_ok_iff {markers : List Marker} {last : Phase} :
    markers.foldlM Phase.next .outside = .ok last ↔
      InOrder markers ∧ last = phaseBehind markers := by
  constructor
  · exact fun h => ⟨inOrder_iff.mpr ⟨last, h⟩, phaseBehind_of_foldlM h⟩
  · rintro ⟨horder, rfl⟩
    obtain ⟨last, hlast⟩ := inOrder_iff.mp horder
    rw [← phaseBehind_of_foldlM hlast, hlast]

/-- Behind markers in order a further one is out of order if the phase does not admit
it. -/
theorem not_inOrder_concat_iff {markers : List Marker} {which : Marker} (h : InOrder markers) :
    ¬ InOrder (markers ++ [which]) ↔
      ∃ misplacement, (phaseBehind markers).next which = .error misplacement := by
  have hmarkers := foldlM_next_eq_ok_iff.mpr ⟨h, rfl⟩
  simp only [inOrder_iff, foldlM_next_concat_eq_ok_iff, hmarkers, Except.ok.injEq,
    exists_eq_left']
  cases (phaseBehind markers).next which <;> simp

/-! ## What the validator says -/

/-- A document is accepted if, and only if, its markers can be gone on with to whole
rounds, with the phase that the last of them starts. It is refused if, and only if, some
marker cannot: the fault is that of the first such marker, the complaint is the one for
this marker in the phase in front of it, and the offsets cut its text out of the
document, behind all tokens in front of it. This is so with every comment sign. -/
theorem validate_splitLines_iff (sign source : Text) :
    (∀ phase, validate (splitLines sign source) = .ok phase ↔
      InOrder (markersOf (splitLines sign source)) ∧
        phase = phaseBehind (markersOf (splitLines sign source))) ∧
    ∀ fault, validate (splitLines sign source) = .error fault ↔
      ∃ front m which rest, splitLines sign source = front ++ .marker m which :: rest ∧
        InOrder (markersOf front) ∧ ¬ InOrder (markersOf front ++ [which]) ∧
        (phaseBehind (markersOf front)).next which = .error fault.misplacement ∧
        fault.start = (textOf front).length ∧ fault.stop = fault.start + m.length ∧
        Text.slice source fault.start fault.stop = m := by
  refine ⟨fun phase => (validateFrom_eq_ok_iff 0 phase).trans foldlM_next_eq_ok_iff,
    fun fault => ?_⟩
  rw [validate, validateFrom_eq_error_iff]
  constructor
  · rintro ⟨front, m, which, rest, next, hlines, hfront, hnext, hstart, hstop⟩
    obtain ⟨horder, rfl⟩ := foldlM_next_eq_ok_iff.mp hfront
    have hsource : source = textOf front ++ (m ++ textOf rest) := by
      rw [← textOf_splitLines sign source, hlines, textOf_append, textOf_cons]
      rfl
    refine ⟨front, m, which, rest, hlines, horder, (not_inOrder_concat_iff horder).mpr ⟨_, hnext⟩,
      hnext, by rw [hstart, Nat.zero_add], hstop, ?_⟩
    rw [hstop, hstart, hsource, Text.slice, Nat.zero_add, List.drop_left,
      Nat.add_sub_cancel_left, List.take_left]
  · rintro ⟨front, m, which, rest, hlines, horder, -, hnext, hstart, hstop, -⟩
    exact ⟨front, m, which, rest, _, hlines, foldlM_next_eq_ok_iff.mpr ⟨horder, rfl⟩, hnext,
      by rw [hstart, Nat.zero_add], hstop⟩

end CommentMacro.Document
