import CommentMacro.Command.Watch
import CommentMacro.Proofs.Expansion.Rewriting

/-!
# A watch is a sequence of single runs

What a watch has shown after some edits, and what comes to it with the next one, depends on
nothing but the files and on when the source was last changed as the last run was over
(`lastSeen`). If the source is there and has another time of change, what is shown next is
what a single run on the files shows; else nothing is (`perform_watch`).

A watch builds its snapshots from the front; here they are taken as what the edits so far
have come to, and each further edit adds one at the end (`session_eq`).
-/

namespace CommentMacro.Command

def Options.single (options : Options) : Options :=
  { options with watch := false }

/-- When the source was last changed as the last run was over. Only snapshots that are taken
after a run show anything. -/
def lastSeen (source : Text) (snapshots : List (Look × FileStore)) : Option Stamp :=
  (snapshots.reverse.find? fun snapshot => snapshot.1 ≠ .idle).bind
    fun snapshot => snapshot.2.stamp? source

def filesAfter (store : FileStore) : List Edit → List FileStore
  | [] => []
  | edit :: edits => store.edit edit :: filesAfter (store.edit edit) edits

/-- Whether the source is there and was last changed at another time than the given one. -/
def Changed (source : Text) (last : Option Stamp) (store : FileStore) : Prop :=
  store.stamp? source ≠ none ∧ store.stamp? source ≠ last

/-- A single run either breaks off, and a watch for the same reason, or it comes to a report
and to files, of which the snapshots of the watch are made. -/
def Follows (single watched : Except Breakdown Outcome)
    (snapshots : Report → FileStore → List (Look × FileStore)) : Prop :=
  (∃ report files, single = .ok (.once report files) ∧
    watched = .ok (.watched (snapshots report files))) ∨
  ∃ breakdown, single = .error breakdown ∧ watched = .error breakdown

section

variable {ε α β : Type} {first : Except ε α}

/-- What does not break off has not broken off before. -/
theorem exists_of_bind_ok {next : α → Except ε β} {b : β} (h : first >>= next = .ok b) :
    ∃ a, first = .ok a ∧ next a = .ok b := by
  cases first with
  | error fault => exact nomatch h
  | ok a => exact ⟨a, rfl, h⟩

theorem exists_of_map_ok {f : α → β} {b : β} (h : first.map f = .ok b) :
    ∃ a, first = .ok a ∧ f a = b := by
  cases first with
  | error fault => exact nomatch h
  | ok a => exact ⟨a, rfl, Except.ok.inj h⟩

theorem eq_error_of_map_error {f : α → β} {fault : ε} (h : first.map f = .error fault) :
    first = .error fault := by
  cases first with
  | error other => exact congrArg Except.error (Except.error.inj h)
  | ok a => exact nomatch h

end

namespace Watch

/-! ## Looks -/

variable {options : Options}

theorem look_unchanged {watch : Watch} (h : ¬ Changed options.source watch.last watch.store) :
    look options watch = .ok (.idle, watch) := by
  rw [look]
  cases hfile : watch.store.file? options.source with
  | none => rfl
  | some file =>
      have hstamp : watch.store.stamp? options.source = some file.stamp := by
        rw [FileStore.stamp?, hfile, Option.map_some]
      have hlast : some file.stamp = watch.last := by
        by_contra hne
        exact h ⟨by rw [hstamp]; nofun, by rwa [hstamp]⟩
      simp [isDue, hlast]

theorem look_changed (watch : Watch) (h : Changed options.source watch.last watch.store) :
    ∃ document, watch.store.content? options.source = some document ∧
      look options watch = (run options document).map fun report =>
        (⟨notice options.source ++ report.output, report.errors⟩,
          sight options (report.store watch.store)) := by
  rw [Changed, FileStore.stamp?] at h
  cases hfile : watch.store.file? options.source with
  | none =>
      rw [hfile] at h
      exact absurd rfl h.1
  | some file =>
      rw [hfile, Option.map_some] at h
      refine ⟨file.content, by rw [FileStore.content?, hfile, Option.map_some], ?_⟩
      have hdue : isDue watch.last (some file.stamp) = true := by simp [isDue, h.2]
      rw [look, hfile]
      simp only [hdue, if_true]
      cases run options file.content <;> rfl

/-! ## Snapshots at the end -/

abbrev History := List (Look × FileStore) × Watch

/-- One more edit, and the look that follows it. -/
def advance (options : Options) (history : History) (edit : Edit) : Except Breakdown History := do
  let (next, after) ← look options { history.2 with store := history.2.store.edit edit }
  return (history.1 ++ [(next, after.store)], after)

/-- What a watch on a document has come to after edits. -/
def historyOf (options : Options) (store : FileStore) (document : Text) (edits : List Edit) :
    Except Breakdown History := do
  let (shown, watch) ← begin options store document
  edits.foldlM (advance options) ([(shown, watch.store)], watch)

/-- The snapshots that are taken from the front are those that are added at the end. -/
theorem session_eq (options : Options) (edits : List Edit) (front : List (Look × FileStore))
    (shown : Look) (watch : Watch) :
    (session options shown watch edits).map (front ++ ·) =
      (edits.foldlM (advance options) (front ++ [(shown, watch.store)], watch)).map (·.1) := by
  induction edits generalizing front shown watch with
  | nil => rfl
  | cons edit edits ih =>
      rw [session, List.foldlM_cons, advance]
      cases hlook : look options { watch with store := watch.store.edit edit } with
      | error breakdown => rfl
      | ok looked =>
          obtain ⟨next, after⟩ := looked
          have hrest := ih (front ++ [(shown, watch.store)]) next after
          show Except.map (front ++ ·)
              ((session options next after edits).map ((shown, watch.store) :: ·)) =
            (edits.foldlM (advance options)
              ((front ++ [(shown, watch.store)]) ++ [(next, after.store)], after)).map (·.1)
          rw [← hrest]
          cases session options next after edits with
          | error breakdown => rfl
          | ok snapshots => simp [Except.map]

theorem historyOf_append (options : Options) (store : FileStore) (document : Text)
    (edits more : List Edit) :
    historyOf options store document (edits ++ more) =
      historyOf options store document edits >>= fun history =>
        more.foldlM (advance options) history := by
  rw [historyOf, historyOf, bind_assoc]
  simp only [List.foldlM_append]

variable {history : History} {edit : Edit}

theorem advance_unchanged
    (h : ¬ Changed options.source history.2.last (history.2.store.edit edit)) :
    advance options history edit =
      .ok (history.1 ++ [(.idle, history.2.store.edit edit)],
        { history.2 with store := history.2.store.edit edit }) := by
  rw [advance, look_unchanged h]
  rfl

theorem advance_changed (h : Changed options.source history.2.last (history.2.store.edit edit)) :
    ∃ document, (history.2.store.edit edit).content? options.source = some document ∧
      advance options history edit = (run options document).map fun report =>
        let after := report.store (history.2.store.edit edit)
        (history.1 ++ [(⟨notice options.source ++ report.output, report.errors⟩, after)],
          sight options after) := by
  obtain ⟨document, hcontent, hlook⟩ :=
    look_changed { history.2 with store := history.2.store.edit edit } h
  refine ⟨document, hcontent, ?_⟩
  rw [advance, hlook]
  cases run options document <;> rfl

/-- The watch has the files of the last snapshot, and has last seen what `lastSeen` says. -/
structure Tracks (source : Text) (history : History) : Prop where
  store_eq : history.1.getLast?.map Prod.snd = some history.2.store
  last_eq : history.2.last = lastSeen source history.1

end Watch

section

variable (source : Text) (snapshots : List (Look × FileStore)) (files : FileStore)

theorem lastSeen_idle :
    lastSeen source (snapshots ++ [(.idle, files)]) = lastSeen source snapshots := by
  simp [lastSeen]

theorem lastSeen_shown {shown : Look} (h : shown ≠ .idle) :
    lastSeen source (snapshots ++ [(shown, files)]) = files.stamp? source := by
  simp [lastSeen, h]

end

namespace Watch

variable {options : Options} {history history' : History} {edit : Edit}

theorem ne_idle_of_line (t more errors : Text) : (⟨line t ++ more, errors⟩ : Look) ≠ .idle := by
  simp [Look.idle, line]

theorem Tracks.advance (h : Tracks options.source history)
    (hadvance : advance options history edit = .ok history') : Tracks options.source history' := by
  by_cases hchanged : Changed options.source history.2.last (history.2.store.edit edit)
  · obtain ⟨document, -, hrun⟩ := advance_changed hchanged
    rw [hrun] at hadvance
    obtain ⟨report, -, rfl⟩ := exists_of_map_ok hadvance
    refine ⟨by simp [sight], ?_⟩
    exact (lastSeen_shown _ _ _ (ne_idle_of_line _ _ _)).symm
  · rw [advance_unchanged hchanged] at hadvance
    obtain rfl := Except.ok.inj hadvance
    exact ⟨by simp, h.last_eq.trans (lastSeen_idle _ _ _).symm⟩

theorem Tracks.foldlM {edits : List Edit} (h : Tracks options.source history)
    (hfold : edits.foldlM (Watch.advance options) history = .ok history') :
    Tracks options.source history' := by
  induction edits generalizing history with
  | nil =>
      obtain rfl := Except.ok.inj hfold
      exact h
  | cons edit edits ih =>
      rw [List.foldlM_cons] at hfold
      obtain ⟨next, hadvance, hfold⟩ := exists_of_bind_ok hfold
      exact ih (h.advance hadvance) hfold

theorem tracks_historyOf {store : FileStore} {document : Text} {edits : List Edit}
    (h : historyOf options store document edits = .ok history) :
    Tracks options.source history := by
  obtain ⟨⟨shown, watch⟩, hbegin, hfold⟩ := exists_of_bind_ok h
  obtain ⟨report, -, hbegun⟩ := exists_of_bind_ok hbegin
  obtain ⟨rfl, rfl⟩ := Prod.mk.inj (Except.ok.inj hbegun)
  -- the first snapshot shows at least that the watch begins
  have hshown : (⟨report.output ++ announcement options.source, report.errors⟩ : Look) ≠ .idle := by
    simp [Look.idle, announcement, line]
  exact Tracks.foldlM
    ⟨rfl, (lastSeen_shown options.source [] (report.store store) hshown).symm⟩ hfold

/-- While the source does not change a watch shows nothing, and has the edited files. -/
theorem foldlM_unchanged (history : History) {more : List Edit}
    (h : ∀ files ∈ filesAfter history.2.store more,
      ¬ Changed options.source history.2.last files) :
    ∃ watch, more.foldlM (Watch.advance options) history =
      .ok (history.1 ++ (filesAfter history.2.store more).map (Look.idle, ·), watch) := by
  induction more generalizing history with
  | nil => exact ⟨history.2, by simp [filesAfter]; rfl⟩
  | cons edit more ih =>
      rw [filesAfter, List.forall_mem_cons] at h
      obtain ⟨watch, hfold⟩ := ih (history.1 ++ [(.idle, history.2.store.edit edit)],
        { history.2 with store := history.2.store.edit edit }) h.2
      refine ⟨watch, ?_⟩
      rw [List.foldlM_cons, advance_unchanged h.1]
      refine hfold.trans ?_
      rw [filesAfter, List.map_cons, List.append_assoc, List.singleton_append]

end Watch

/-! ## A watch and single runs -/

variable {options : Options} {store : FileStore} {document : Text}

theorem perform_missing (options : Options) (h : store.content? options.source = none)
    (edits : List Edit) :
    perform options store edits = .ok (.once (missing options.source) store) := by
  rw [perform, h]

theorem perform_single (h : store.content? options.source = some document) (edits : List Edit) :
    perform options.single store edits =
      (run options document).map fun report => .once report (report.store store) := by
  have hcontent : store.content? options.single.source = some document := h
  rw [perform, hcontent]
  show (do
    let report ← run options document
    return .once report (report.store store) : Except Breakdown Outcome) = _
  cases run options document <;> rfl

theorem perform_watched (hwatch : options.watch = true)
    (h : store.content? options.source = some document) (edits : List Edit) :
    perform options store edits =
      (Watch.historyOf options store document edits).map fun history => .watched history.1 := by
  rw [perform, h]
  simp only [hwatch, if_true]
  rw [Watch.historyOf]
  cases hbegin : Watch.begin options store document with
  | error breakdown => rfl
  | ok begun =>
      obtain ⟨shown, watch⟩ := begun
      have hsession : (do return .watched (← Watch.session options shown watch edits) :
          Except Breakdown Outcome) =
          ((Watch.session options shown watch edits).map ([] ++ ·)).map .watched := by
        cases Watch.session options shown watch edits <;> rfl
      refine hsession.trans ?_
      rw [Watch.session_eq]
      show Except.map _ (Except.map _ (edits.foldlM _ ([(shown, watch.store)], watch))) =
        Except.map _ (edits.foldlM (Watch.advance options) ([(shown, watch.store)], watch))
      cases edits.foldlM (Watch.advance options) ([(shown, watch.store)], watch) <;> rfl

/-- What comes of a run and its report follows the single run. -/
theorem follows_run {watched : Except Breakdown Outcome}
    {snapshots : Report → FileStore → List (Look × FileStore)}
    (h : store.content? options.source = some document)
    (hwatched : watched = (run options document).map fun report =>
      .watched (snapshots report (report.store store))) :
    Follows (perform options.single store []) watched snapshots := by
  rw [perform_single h, hwatched]
  cases run options document with
  | error breakdown => exact .inr ⟨breakdown, rfl, rfl⟩
  | ok report => exact .inl ⟨report, report.store store, rfl, rfl⟩

/-- A watch begins with a single run. -/
theorem follows_begin (hwatch : options.watch = true)
    (h : store.content? options.source = some document) :
    Follows (perform options.single store []) (perform options store []) fun report files =>
      [(⟨report.output ++ Watch.announcement options.source, report.errors⟩, files)] := by
  refine follows_run h ?_
  rw [perform_watched hwatch h, Watch.historyOf, Watch.begin]
  cases run options document <;> rfl

/-- When the source has changed a watch goes on with a single run. -/
theorem follows_advance {history : Watch.History} {edit : Edit}
    (h : Changed options.source history.2.last (history.2.store.edit edit)) :
    Follows (perform options.single (history.2.store.edit edit) [])
      ((Watch.advance options history edit).map fun later => .watched later.1)
      fun report after => history.1 ++
        [(⟨Watch.notice options.source ++ report.output, report.errors⟩, after)] := by
  obtain ⟨document, hcontent, hadvance⟩ := Watch.advance_changed h
  refine follows_run hcontent ?_
  rw [hadvance]
  cases run options document <;> rfl

/-- The history of a watch that has come to snapshots. -/
theorem exists_history (hwatch : options.watch = true) {edits : List Edit}
    {snapshots : List (Look × FileStore)}
    (h : perform options store edits = .ok (.watched snapshots)) :
    ∃ watch, Watch.Tracks options.source (snapshots, watch) ∧ ∀ more,
      perform options store (edits ++ more) =
        (more.foldlM (Watch.advance options) (snapshots, watch)).map
          fun history => .watched history.1 := by
  cases hcontent : store.content? options.source with
  | none =>
      rw [perform_missing options hcontent] at h
      exact nomatch h
  | some document =>
      rw [perform_watched hwatch hcontent] at h
      obtain ⟨history, hhistory, hsnapshots⟩ := exists_of_map_ok h
      obtain rfl := Outcome.watched.inj hsnapshots
      refine ⟨history.2, Watch.tracks_historyOf hhistory, fun more => ?_⟩
      rw [perform_watched hwatch hcontent, Watch.historyOf_append, hhistory]
      rfl

/-- A watch that breaks off has come to its end. -/
theorem perform_append_error (hwatch : options.watch = true) {edits : List Edit}
    {breakdown : Breakdown} (h : perform options store edits = .error breakdown)
    (more : List Edit) : perform options store (edits ++ more) = .error breakdown := by
  cases hcontent : store.content? options.source with
  | none =>
      rw [perform_missing options hcontent] at h
      exact nomatch h
  | some document =>
      rw [perform_watched hwatch hcontent] at h ⊢
      rw [Watch.historyOf_append, eq_error_of_map_error h]
      rfl

/-- A watch is a sequence of single runs. It begins with one, unless the source is missing.
With each edit it shows nothing and has the edited files, unless the source is there and was
last changed at another time than when the run before was over; then it shows and changes
what a single run on the edited files does. So after a run, whatever that has written or
complained of, nothing is shown until an edit gives the source another time of change. -/
theorem perform_watch (options : Options) (hwatch : options.watch = true) (store : FileStore) :
    (store.file? options.source = none → ∀ edits,
      perform options store edits = perform options.single store []) ∧
    (store.file? options.source ≠ none →
      Follows (perform options.single store []) (perform options store []) fun report files =>
        [(⟨report.output ++ Watch.announcement options.source, report.errors⟩, files)]) ∧
    (∀ edits breakdown more, perform options store edits = .error breakdown →
      perform options store (edits ++ more) = .error breakdown) ∧
    ∀ edits snapshots, perform options store edits = .ok (.watched snapshots) →
      ∃ shown files, snapshots.getLast? = some (shown, files) ∧
        (∀ edit, Changed options.source (lastSeen options.source snapshots) (files.edit edit) →
          Follows (perform options.single (files.edit edit) [])
            (perform options store (edits ++ [edit])) fun report after => snapshots ++
              [(⟨Watch.notice options.source ++ report.output, report.errors⟩, after)]) ∧
        (∀ edit, ¬ Changed options.source (lastSeen options.source snapshots) (files.edit edit) →
          perform options store (edits ++ [edit]) =
            .ok (.watched (snapshots ++ [(.idle, files.edit edit)]))) ∧
        (shown ≠ .idle → ∀ more,
          (∀ later ∈ filesAfter files more, later.stamp? options.source = none ∨
            later.stamp? options.source = files.stamp? options.source) →
          perform options store (edits ++ more) =
            .ok (.watched (snapshots ++ (filesAfter files more).map (Look.idle, ·)))) := by
  refine ⟨fun hfile edits => ?_, fun hfile => ?_, fun edits breakdown more h => ?_,
    fun edits snapshots h => ?_⟩
  · have hcontent : store.content? options.source = none := by
      rw [FileStore.content?, hfile, Option.map_none]
    rw [perform_missing options hcontent]
    exact (perform_missing options.single hcontent []).symm
  · obtain ⟨file, hfile⟩ := Option.ne_none_iff_exists'.mp hfile
    exact follows_begin hwatch (by rw [FileStore.content?, hfile, Option.map_some])
  · exact perform_append_error hwatch h more
  · obtain ⟨watch, htracks, hmore⟩ := exists_history hwatch h
    obtain ⟨⟨shown, files⟩, hlast, hfiles⟩ := Option.map_eq_some_iff.mp htracks.store_eq
    obtain rfl : files = watch.store := hfiles
    rw [← htracks.last_eq]
    refine ⟨shown, watch.store, hlast, fun edit hchanged => ?_, fun edit hchanged => ?_,
      fun hshown more hstamps => ?_⟩
    · rw [hmore]
      simp only [List.foldlM_cons, List.foldlM_nil, bind_pure]
      exact follows_advance hchanged
    · rw [hmore, List.foldlM_cons, Watch.advance_unchanged hchanged]
      rfl
    · obtain ⟨earlier, hsnapshots⟩ := List.getLast?_eq_some_iff.mp hlast
      have hseen : watch.last = watch.store.stamp? options.source := by
        rw [htracks.last_eq, hsnapshots, lastSeen_shown _ _ _ hshown]
      obtain ⟨watch', hfold⟩ := Watch.foldlM_unchanged (snapshots, watch)
        fun later hlater hchanged => (hstamps later hlater).elim hchanged.1 (hseen ▸ hchanged.2)
      rw [hmore, hfold]
      rfl

def watching : Options :=
  { Options.default with source := "a".toList, watch := true }

/-- The write of the first run is not taken for a change. A faulty document is, and then the
watch does what a single run does. -/
theorem perform_watch_greeting :
    let store := FileStore.ofList 0 [("a".toList, greeting)]
    let written : FileStore := ⟨[("a".toList, ⟨greeted, .written 0⟩)], 1⟩
    let first : Look := ⟨("Compiled output injected into a\n" ++
      "Watching a for changes...\n").toList, []⟩
    let faulty := Edit.write "a".toList "// #metacode\n// #metaend\n".toList 5
    perform watching store [] = .ok (.watched [(first, written)]) ∧
      perform watching store [.nothing] = .ok (.watched [(first, written), (.idle, written)]) ∧
      perform watching store [.nothing, .nothing] =
        .ok (.watched [(first, written), (.idle, written), (.idle, written)]) ∧
      Changed "a".toList (some (.written 0)) (written.edit faulty) ∧
      Follows (perform watching.single (written.edit faulty) []) (perform watching store [faulty])
        fun report after => [(first, written),
          (⟨Watch.notice "a".toList ++ report.output, report.errors⟩, after)] := by
  intro store written first faulty
  have hfirst : perform watching store [] = .ok (.watched [(first, written)]) := by
    decide +kernel
  have hseen : lastSeen "a".toList [(first, written)] = some (.written 0) := by decide +kernel
  have hwritten : written.stamp? "a".toList = some (.written 0) := by decide +kernel
  have hfaulty : Changed "a".toList (some (.written 0)) (written.edit faulty) := by
    constructor <;> decide +kernel
  have hnothing : ¬ Changed "a".toList (some (.written 0)) (written.edit .nothing) :=
    fun h => h.2 hwritten
  have hshown : first ≠ .idle := by decide +kernel
  clear_value first written faulty
  obtain ⟨-, -, -, hedits⟩ := perform_watch watching rfl store
  obtain ⟨shown, files, hlast, hchanged, hunchanged, hidle⟩ := hedits [] _ hfirst
  obtain ⟨rfl, rfl⟩ := Prod.mk.inj (Option.some.inj hlast)
  have hsource : watching.source = "a".toList := rfl
  rw [hsource, hseen] at hchanged hunchanged
  refine ⟨hfirst, hunchanged .nothing hnothing, hidle hshown [.nothing, .nothing] ?_, hfaulty,
    hchanged faulty hfaulty⟩
  simp [filesAfter, FileStore.edit]

end CommentMacro.Command
