import Minirel.Engine.FileCalls

/-! The engine implements flat storage for clients that keep to the rules. -/
namespace Minirel.Engine
open BufMgr BufMgr.Clients
variable {bufs : Nat} {host : Host} {e : Engine bufs} {st : Flat} {g : Ledger} {name : Name}

theorem answers_of_handle {c : StorageCall} {reply : c.Reply} (st' : Flat)
    (run : Flat.handle c st = some (reply, st')) :
    (Flat.service bufs).answers c (st, g) reply (st', g.account c reply) :=
  ⟨rfl, st.scratch, fun _ => rfl, run⟩

def Matches (host : Host) (e : Engine bufs) (s : Flat × Ledger) (c : StorageCall) : Prop :=
  ∃ reply e' t, handle host c e = some (reply, e') ∧ (Flat.service bufs).answers c s reply t ∧
    e'.Represents host t

theorem paths_closed (rep : e.Represents host (st, g)) (plain : 0 ∉ name)
    (closed : st.openCnt name = 0) :
    e.paths name = (st.files name).isSome := (rep.names.stored name plain closed).isSome_eq

theorem openFile_matches (rep : e.Represents host (st, g)) (plain : 0 ∉ name) :
    e.Matches host (st, g) (.openFile name) := by
  by_cases named : name = []
  · subst named
    exact ⟨.badFile, e, _, rfl, answers_of_handle _ rfl, rep⟩
  by_cases isOpen : 0 < st.openCnt name
  · obtain ⟨e', run, rep'⟩ := openFile_again rep isOpen
    refine ⟨.ok, e', _, run, answers_of_handle _ ?_, rep'⟩
    simp only [Flat.handle, named, isOpen, true_or, if_false, if_true]
  have closed : st.openCnt name = 0 := by omega
  have stored := rep.names.stored name plain closed
  cases there : st.files name with
  | none =>
    have unknown : e.paths name = false := by simp [paths_closed rep plain closed, there]
    refine ⟨.unixErr, e, _, ?_, answers_of_handle _ ?_, rep⟩
    · simp [handle, openFile, DB.openFile, named, rep.names.unlisted name closed,
        path_of_plain plain, unknown, File.open]
    · simp [Flat.handle, named, closed, there]
  | some f =>
    simp only [there] at stored
    cases present : e.directory name with
    | none =>
      rw [present] at stored
      cases stored
    | some unix =>
      rw [present] at stored
      cases stored with
      | present sound mirrors =>
        obtain ⟨e', run, rep'⟩ := openFile_new rep closed named plain present there sound mirrors
        refine ⟨.ok, e', _, run, answers_of_handle _ ?_, rep'⟩
        simp [Flat.handle, named, there]

/-- The last close flushes the pages of the file. -/
theorem closeFile_matches (rep : e.Represents host (st, g))
    (permitted : g.Permits bufs (.closeFile name)) :
    e.Matches host (st, g) (.closeFile name) := by
  obtain ⟨isOpen, unpinned⟩ := permitted
  rw [show g.opens = st.openCnt from rep.opens] at isOpen unpinned
  have answer : Flat.handle (.closeFile name) st = some (.ok, st.closed name) := by
    simp [Flat.handle, Nat.ne_of_gt isOpen]
  by_cases shared : 1 < st.openCnt name
  · obtain ⟨e', run, rep'⟩ := closeFile_shared rep shared
    exact ⟨.ok, e', _, run, answers_of_handle _ answer, rep'⟩
  · have last : st.openCnt name = 1 := by omega
    obtain ⟨e', run, rep'⟩ := closeFile_last rep last (unpinned last)
    exact ⟨.ok, e', _, run, answers_of_handle _ answer, rep'⟩

theorem createFile_matches (rep : e.Represents host (st, g)) (plain : 0 ∉ name) :
    e.Matches host (st, g) (.createFile name) := by
  by_cases named : name = []
  · subst named
    refine ⟨.badFile, e, _, ?_, answers_of_handle _ rfl, rep⟩
    simp [handle, createFile, DB.createFile, follow_paths]
  by_cases isOpen : 0 < st.openCnt name
  · refine ⟨.fileExists, e, _, ?_, answers_of_handle _ ?_, rep⟩
    · simp [handle, createFile, DB.createFile, named, (rep.names.listed name isOpen).entry,
        follow_paths]
    · simp only [Flat.handle, named, isOpen, true_or, if_false, if_true]
  have closed : st.openCnt name = 0 := by omega
  have unlisted := rep.names.unlisted name closed
  cases there : st.files name with
  | some f =>
    have known : e.paths name = true := by simp [paths_closed rep plain closed, there]
    refine ⟨.fileExists, e, _, ?_, answers_of_handle _ ?_, rep⟩
    · simp [handle, createFile, DB.createFile, named, unlisted, File.create, path_of_plain plain,
        known, follow_paths]
    · simp [Flat.handle, named, there]
  | none =>
    have unknown : e.paths name = false := by simp [paths_closed rep plain closed, there]
    cases accepted : host.creatable name with
    | false =>
      refine ⟨.unixErr, e, _, ?_, answers_of_handle _ ?_, rep⟩
      · simp [handle, createFile, DB.createFile, named, unlisted, File.create, path_of_plain plain,
          unknown, accepted, follow_paths]
      · simp [Flat.handle, named, there, closed, show st.creatable = _ from rep.names.creatable,
          accepted]
    | true =>
      have created : (e.follow (Function.update e.paths name true)).directory name = some .create := by
        have absent : e.directory name = none := by simpa [paths] using unknown
        simp [follow, absent]
      have rep' := rep.follow closed true (some st.emptyFile)
        (created ▸ .present ⟨[], UnixFile.create_sound⟩ (create_mirrors st))
      refine ⟨.ok, _, _, ?_, answers_of_handle _ ?_, rep'⟩
      · simp [handle, createFile, DB.createFile, named, unlisted, File.create, path_of_plain plain,
          unknown, accepted]
      · simp [Flat.handle, named, there, closed, show st.creatable = _ from rep.names.creatable,
          accepted, Flat.put]

theorem destroyFile_matches (rep : e.Represents host (st, g)) (plain : 0 ∉ name) :
    e.Matches host (st, g) (.destroyFile name) := by
  by_cases named : name = []
  · subst named
    refine ⟨.badFile, e, _, ?_, answers_of_handle _ rfl, rep⟩
    simp [handle, destroyFile, DB.destroyFile, follow_paths]
  by_cases isOpen : 0 < st.openCnt name
  · refine ⟨.fileOpen, e, _, ?_, answers_of_handle _ ?_, rep⟩
    · simp [handle, destroyFile, DB.destroyFile, named, (rep.names.listed name isOpen).entry,
        follow_paths]
    · simp only [Flat.handle, named, isOpen, if_false, if_true]
  have closed : st.openCnt name = 0 := by omega
  have unlisted := rep.names.unlisted name closed
  cases there : st.files name with
  | none =>
    have unknown : e.paths name = false := by simp [paths_closed rep plain closed, there]
    refine ⟨.unixErr, e, _, ?_, answers_of_handle _ ?_, rep⟩
    · simp [handle, destroyFile, DB.destroyFile, named, unlisted, File.destroy, path_of_plain plain,
        unknown, follow_paths]
    · simp [Flat.handle, named, there, closed]
  | some f =>
    have known : e.paths name = true := by simp [paths_closed rep plain closed, there]
    have gone : (e.follow (Function.update e.paths name false)).directory name = none := by
      simp [follow]
    have rep' := rep.follow closed false none (gone ▸ .absent)
    refine ⟨.ok, _, _, ?_, answers_of_handle _ ?_, rep'⟩
    · simp [handle, destroyFile, DB.destroyFile, named, unlisted, File.destroy,
        path_of_plain plain, known]
    · simp [Flat.handle, named, there, closed]

section pages
variable {n : Int}

theorem Represents.object_ne_none (rep : e.Represents host (st, g)) (isOpen : 0 < g.opens name) :
    0 < st.openCnt name ∧ e.db.files (e.filePtrs name) ≠ none := by
  rw [show g.opens = st.openCnt from rep.opens] at isOpen
  exact ⟨isOpen, by rw [(rep.names.listed name isOpen).object]; simp⟩

theorem getFirstPage_matches (rep : e.Represents host (st, g)) (isOpen : 0 < g.opens name) :
    e.Matches host (st, g) (.getFirstPage name) := by
  obtain ⟨isOpen, live⟩ := rep.object_ne_none isOpen
  obtain ⟨latest, pins, pages⟩ := rep.pages
  obtain ⟨f, there, mirrors⟩ := pages.contents name isOpen
  have header := (pages.sound_nil isOpen).header
  refine ⟨.ok f.firstPage, e, _, ?_, answers_of_handle _ ?_, rep⟩
  · simp only [handle, live, if_false, Disk.getFirstPage,
      Disk.intread_noFault
        (show 0 ≤ (0 : Int) ∧ 0 < (e.db.bufMgr.disk (e.filePtrs name)).size by omega),
        mirrors.firstPage]
  · simp [Flat.handle, show st.files name = some f from there]

/-- The page comes from the pool or from the disk, and is the latest. -/
theorem readPage_matches (rep : e.Represents host (st, g))
    (permitted : g.Permits bufs (.readPage name n)) (has : st.Exists (.readPage name n)) :
    e.Matches host (st, g) (.readPage name n) := by
  obtain ⟨isOpen, live⟩ := rep.object_ne_none permitted.1
  obtain ⟨latest, pins, pages⟩ := rep.pages
  obtain ⟨f, there, low, high⟩ := has
  obtain ⟨i, m, run, pages'⟩ := pages.readPage isOpen permitted.2 there low high
  refine ⟨.ok, _, _, ?_, answers_of_handle st ?_, (rep.names.withMgr m).pointTo _ i, rep.opens,
    latest, _, pages'⟩
  · simp only [handle, live, if_false, readPage, run]
  · simp [Flat.handle, there, show ¬ n < 1 by omega, show ¬ f.numPages ≤ n by omega]

theorem allocPage_matches (rep : e.Represents host (st, g))
    (permitted : g.Permits bufs (.allocPage name)) :
    e.Matches host (st, g) (.allocPage name) := by
  obtain ⟨isOpen, live⟩ := rep.object_ne_none permitted.1
  obtain ⟨latest, pins, pages⟩ := rep.pages
  obtain ⟨f, i, m, scratch, latest', pins', there, run, filled, pages'⟩ :=
    pages.allocPage rep.names isOpen permitted.2
  refine ⟨.ok f.numPages,
    (e.withMgr (m.setPool i (.image (.data scratch)))).pointTo (name, f.numPages) i,
    ({ st with scratch := scratch }.put name ({ st with scratch := scratch }.allocated f), _), ?_,
    ⟨rfl, scratch, fun quiet => (by cases quiet), ?_⟩, ?_, rep.opens, latest', pins', ?_⟩
  · simp only [handle, live, if_false, allocPage, run, filled]
  · simp [Flat.handle, show st.files name = some f from there]
  · have names : e.Names host { st with scratch := scratch } :=
      ⟨rep.names.listed, rep.names.unlisted, rep.names.finite, rep.names.stored, rep.names.creatable⟩
    exact ((names.put isOpen _).withMgr _).pointTo _ i
  · exact ⟨pages'.cache, pages'.null, pages'.owned, pages'.contents, pages'.pinned, pages'.inUse,
      pages'.owner, pages'.single⟩

theorem unPinPage_matches (rep : e.Represents host (st, g)) {dirty : Bool}
    (permitted : g.Permits bufs (.unPinPage name n dirty)) :
    e.Matches host (st, g) (.unPinPage name n dirty) := by
  obtain ⟨latest, pins, pages⟩ := rep.pages
  obtain ⟨m, pins', run, pages'⟩ := pages.unPinPage rep.names permitted
  refine ⟨.ok, e.withMgr m, _, ?_, answers_of_handle st rfl, rep.names.withMgr m, rep.opens, latest,
    pins', pages'⟩
  simp only [handle, unPinPage, run]

theorem flushFile_matches (rep : e.Represents host (st, g))
    (permitted : g.Permits bufs (.flushFile name)) :
    e.Matches host (st, g) (.flushFile name) := by
  obtain ⟨isOpen, _⟩ := rep.object_ne_none permitted.1
  obtain ⟨latest, pins, pages⟩ := rep.pages
  obtain ⟨m, run, pages', _⟩ := pages.flushFile rep.names isOpen permitted.2
  refine ⟨.ok, e.withMgr m, _, ?_, answers_of_handle st rfl, rep.names.withMgr m, rep.opens, latest,
    pins, pages'⟩
  simp only [handle, flushFile, run]

theorem load_matches (rep : e.Represents host (st, g)) (member : (name, n) ∈ g.pins) :
    e.Matches host (st, g) (.load name n) := by
  obtain ⟨latest, pins, pages⟩ := rep.pages
  obtain ⟨f, there, low, high, i, frame, contents⟩ := pages.pinned_page rep.names member
  refine ⟨f.page n, e, _, ?_, answers_of_handle _ ?_, rep⟩
  · simp only [handle, load, frame, Option.map_some, contents]
  · simp [Flat.handle, show st.files name = some f from there]

theorem store_matches (rep : e.Represents host (st, g)) (member : (name, n) ∈ g.pins)
    (image : Image) :
    e.Matches host (st, g) (.store name n image) := by
  obtain ⟨latest, pins, pages⟩ := rep.pages
  have isOpen := pages.inUse _ member
  obtain ⟨f, i, latest', pins', there, frame, pages'⟩ := pages.store rep.names member image
  refine ⟨(), e.withMgr _, _, ?_, answers_of_handle (st.put name (f.set n image)) ?_,
    (rep.names.put isOpen _).withMgr _, rep.opens, latest', pins', pages'⟩
  · simp only [handle, store, frame, Option.map_some]
  · simp [Flat.handle, show st.files name = some f from there]

end pages

/-- Every call that is in order is answered as flat storage would answer it. -/
theorem implements (host : Host) :
    Program.Implements (handle host : Program.Handler StorageCall.Reply (Engine bufs))
    (Flat.service bufs) (Represents host) := by
  rintro c e ⟨st, g⟩ rep ⟨permitted, has⟩
  cases c with
  | openFile name => exact openFile_matches rep permitted
  | closeFile name => exact closeFile_matches rep permitted
  | createFile name => exact createFile_matches rep permitted
  | destroyFile name => exact destroyFile_matches rep permitted
  | getFirstPage name => exact getFirstPage_matches rep permitted
  | readPage name n => exact readPage_matches rep permitted has
  | allocPage name => exact allocPage_matches rep permitted
  | unPinPage name n dirty => exact unPinPage_matches rep permitted
  | flushFile name => exact flushFile_matches rep permitted
  | load name n => exact load_matches rep permitted
  | store name n image => exact store_matches rep permitted image

end Minirel.Engine
