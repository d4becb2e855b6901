import Mathlib.Data.List.TakeWhile
import Minirel.Engine.PageCalls

/-! The calls on files: which `File` objects there are, and where the pages of a
file are before, while and after it is open. -/
namespace Minirel.Engine
open BufMgr BufMgr.Clients Function
variable {bufs : Nat} {host : Host} {e e' : Engine bufs} {st st' : Flat} {g g' : Ledger}
  {latest : FilePtr × Int → Block} {pins : List (Pin bufs)} {name : Name}

theorem path_of_plain (plain : 0 ∉ name) : path name = name := by
  refine List.takeWhile_eq_self_iff.mpr fun c member => ?_
  rw [decide_eq_true_iff]
  rintro rfl
  exact plain member

theorem Pages.recount (pages : e.Pages st g latest pins) (mgr : e'.db.bufMgr = e.db.bufMgr)
    (ptrs : e'.filePtrs = e.filePtrs) (frames : e'.frames = e.frames)
    (opens : ∀ name, 0 < st'.openCnt name ↔ 0 < st.openCnt name) (files : st'.files = st.files)
    (held : g'.pins = g.pins) (owed : g'.owed = g.owed) : e'.Pages st' g' latest pins := by
  have keys : e'.key = e.key := by
    funext p
    simp only [key, ptrs]
  refine ⟨mgr ▸ pages.cache, mgr ▸ pages.null, ?_, ?_, ?_, ?_, ?_, pages.single⟩
  · rw [mgr, ptrs]
    exact fun i k held => by simpa only [opens] using pages.owned i k held
  · rw [mgr, ptrs, files]
    exact fun name isOpen => pages.contents name ((opens name).mp isOpen)
  · rw [held, keys]
    exact pages.pinned
  · rw [held]
    exact fun p member => (opens p.1).mpr (pages.inUse p member)
  · rw [held, keys, frames, owed]
    exact pages.owner

/-! Opening. -/

theorem openCnt_opened_of_ne (st : Flat) {name other : Name} (apart : other ≠ name) :
    (st.opened name).openCnt other = st.openCnt other := update_of_ne apart ..

theorem openCnt_closed_of_ne (st : Flat) {name other : Name} (apart : other ≠ name) :
    (st.closed name).openCnt other = st.openCnt other := update_of_ne apart ..

/-- Another file keeps its object when one object changes. -/
theorem Names.others (names : e.Names host st) (isOpen : 0 < st.openCnt name) {other : Name}
    (apart : other ≠ name) (isOpen' : 0 < st.openCnt other) : e.filePtrs other ≠ e.filePtrs name :=
  fun same => apart (names.injective isOpen' isOpen same)

/-- An object of which only the count changes. -/
theorem Names.recount (names : e.Names host st) (isOpen : 0 < st.openCnt name) {count : Nat}
    (positive : 0 < count) (counted : st'.openCnt = update st.openCnt name count)
    (files : st'.files = st.files) (creatable : st'.creatable = st.creatable) :
    Names host { e with db := e.db.setFile (e.filePtrs name) (some ⟨name, count⟩) } st' := by
  have here := names.listed name isOpen
  refine ⟨fun other isOpen' => ?_, fun other closed => ?_, ?_, fun other plain closed => ?_,
    creatable.trans names.creatable⟩
  · by_cases same : other = name
    · subst same
      refine ⟨here.entry, here.pointer, ?_, here.named, here.plain⟩
      rw [counted, update_self]
      exact update_self ..
    · rw [counted, update_of_ne same] at isOpen' ⊢
      have there := names.listed other isOpen'
      refine ⟨there.entry, there.pointer, ?_, there.named, there.plain⟩
      exact (update_of_ne (names.others isOpen same isOpen') ..).trans there.object
  · rw [counted] at closed
    have apart : other ≠ name := by
      rintro rfl
      rw [update_self] at closed
      omega
    rw [update_of_ne apart] at closed
    exact names.unlisted other closed
  · refine names.finite.subset fun file object => ?_
    by_cases same : file = e.filePtrs name
    · rw [Set.mem_ofPred_eq, same, here.object]
      simp
    · change update e.db.files (e.filePtrs name) (some ⟨name, count⟩) file ≠ none at object
      rwa [update_of_ne same] at object
  · rw [counted] at closed
    have apart : other ≠ name := by
      rintro rfl
      rw [update_self] at closed
      omega
    rw [update_of_ne apart] at closed
    rw [files]
    exact names.stored other plain closed

theorem openFile_again (rep : e.Represents host (st, g)) (isOpen : 0 < st.openCnt name) :
    ∃ e', e.openFile host name = some (.ok, e') ∧
      e'.Represents host (st.opened name,
        { g with opens := update g.opens name (g.opens name + 1) }) := by
  obtain ⟨names, opens, latest, pins, pages⟩ := rep
  have here := names.listed name isOpen
  have run := DB.openFile_listed (e.paths (path name)) (host.address e.db.files) here.named
    here.entry here.object
    (by simpa using isOpen)
  refine ⟨{ e with db := e.db.setFile (e.filePtrs name) (some ⟨name, (st.openCnt name + 1 : Nat)⟩)
    }, ?_, ?_, ?_, latest, pins, pages.recount rfl rfl rfl (fun other => ?_) rfl rfl rfl⟩
  · simp only [openFile, run, here.object, reduceCtorEq, if_false, update_eq_self]
    rfl
  · exact names.recount isOpen (Nat.succ_pos _) rfl rfl rfl
  · change update g.opens name (g.opens name + 1) = update st.openCnt name (st.openCnt name + 1)
    rw [show g.opens = st.openCnt from opens]
  · by_cases same : other = name
    · subst same
      simp [isOpen]
    · rw [openCnt_opened_of_ne st same]

theorem openFile_new (rep : e.Represents host (st, g)) (closed : st.openCnt name = 0)
    (named : name ≠ []) (plain : 0 ∉ name) {unix : UnixFile Block} {f : FlatFile}
    (stored : e.directory name = some unix) (there : st.files name = some f)
    (sound : ∃ free, unix.Sound free) (mirrors : unix.Mirrors unix.page f) :
    ∃ e', e.openFile host name = some (.ok, e') ∧
      e'.Represents host (st.opened name,
        { g with opens := update g.opens name (g.opens name + 1) }) := by
  obtain ⟨names, opens, latest, pins, pages⟩ := rep
  obtain ⟨address, allotted⟩ : ∃ address, address = host.address e.db.files := ⟨_, rfl⟩
  obtain ⟨pointer, unused⟩ := host.fresh e.db.files names.finite
  rw [← allotted] at pointer unused
  rcases DB.openFile_unlisted (e.paths (path name)) address named (names.unlisted name closed) with
    ⟨missing, _⟩ | ⟨table, inserted, run⟩
  · simp [paths, path_of_plain plain, stored] at missing
  have elsewhere : ∀ other, 0 < st.openCnt other → other ≠ name ∧ e.filePtrs other ≠ address := by
    refine fun other isOpen => ⟨?_, fun same => ?_⟩
    · rintro rfl
      omega
    · have object := (names.listed other isOpen).object
      rw [same, unused] at object
      cases object
  have opened : ∀ other, 0 < (st.opened name).openCnt other → other = name ∨ other ≠ name ∧
      0 < st.openCnt other := by
    intro other isOpen
    by_cases same : other = name
    · exact .inl same
    · rw [openCnt_opened_of_ne st same] at isOpen
      exact .inr ⟨same, isOpen⟩
  have ptrs : ∀ other, other ≠ name → update e.filePtrs name address other = e.filePtrs other :=
    fun other apart => update_of_ne apart ..
  have lookup := ChainedTable.lookup_insert inserted
  refine ⟨_, by simp only [openFile, ← allotted, run, unused, if_true]; rfl, ?_, ?_,
    fun k => if k.1 = address then unix.page k.2 else latest k, pins, ?_⟩
  · rw [path_of_plain plain, stored]
    refine ⟨fun other isOpen => ?_, fun other closed' => ?_, ?_, fun other plain' closed' => ?_,
      names.creatable⟩
    · rcases opened other isOpen with rfl | ⟨apart, isOpen'⟩
      · refine ⟨?_, ?_, ?_, named, plain⟩
        · change table.lookup other = some (update e.filePtrs other address other)
          rw [lookup, if_pos rfl, update_self]
        · change update e.filePtrs other address other ≠ 0
          rwa [update_self]
        · change update e.db.files address _ (update e.filePtrs other address other) = _
          rw [update_self, update_self, Flat.openCnt_opened, closed]
          rfl
      · have there := names.listed other isOpen'
        rw [openCnt_opened_of_ne st apart]
        refine ⟨?_, ?_, ?_, there.named, there.plain⟩
        · change table.lookup other = some (update e.filePtrs name address other)
          rw [lookup, if_neg apart, ptrs other apart]
          exact there.entry
        · change update e.filePtrs name address other ≠ 0
          rw [ptrs other apart]
          exact there.pointer
        · change update e.db.files address _ (update e.filePtrs name address other) = _
          rw [ptrs other apart, update_of_ne (elsewhere other isOpen').2]
          exact there.object
    · have apart : other ≠ name := by
        rintro rfl
        simp at closed'
      rw [openCnt_opened_of_ne st apart] at closed'
      change table.lookup other = none
      rw [lookup, if_neg apart]
      exact names.unlisted other closed'
    · refine (names.finite.insert address).subset fun file object => ?_
      by_cases same : file = address
      · exact .inl same
      · change update e.db.files address _ file ≠ none at object
        rw [update_of_ne same] at object
        exact .inr object
    · have apart : other ≠ name := by
        rintro rfl
        simp at closed'
      rw [openCnt_opened_of_ne st apart] at closed'
      exact names.stored other plain' closed'
  · change update g.opens name (g.opens name + 1) = update st.openCnt name (st.openCnt name + 1)
    rw [show g.opens = st.openCnt from opens]
  · rw [path_of_plain plain, stored]
    have unpooled : ∀ i k, (e.db.bufMgr.bufTable i).key = some k → k.1 ≠ address := by
      intro i k held same
      obtain ⟨other, isOpen, file⟩ := pages.owned i k held
      exact (elsewhere other isOpen).2 (file.trans same)
    have keys : ∀ p ∈ g.pins, (update e.filePtrs name address p.1, p.2) = e.key p := by
      intro p member
      rw [ptrs p.1 (elsewhere p.1 (pages.inUse p member)).1]
      rfl
    refine ⟨pages.cache.mount sound unpooled, pages.null, fun i k held => ?_, fun other isOpen =>
      ?_, ?_, fun p member => ?_, fun pin held => ?_, pages.single⟩
    · obtain ⟨other, isOpen, file⟩ := pages.owned i k held
      have apart := (elsewhere other isOpen).1
      refine ⟨other, by rwa [openCnt_opened_of_ne st apart], ?_⟩
      exact (ptrs other apart).trans file
    · change ∃ f', st.files other = some f' ∧ (update e.db.bufMgr.disk address unix
        (update e.filePtrs name address other)).Mirrors
          (fun n => if update e.filePtrs name address other =
          address then unix.page n else latest (update e.filePtrs name address other, n)) f'
      rcases opened other isOpen with rfl | ⟨apart, isOpen'⟩
      · simp only [update_self, if_true]
        exact ⟨f, there, mirrors⟩
      · have away := (elsewhere other isOpen').2
        simp only [ptrs other apart, update_of_ne away, away, if_false]
        exact pages.contents other isOpen'
    · refine pages.pinned.trans (List.Perm.of_eq (List.map_congr_left fun p member => ?_))
      exact (keys p member).symm
    · have isOpen := pages.inUse p member
      rwa [openCnt_opened_of_ne st (elsewhere p.1 isOpen).1]
    · obtain ⟨p, member, key, frame, owed⟩ := pages.owner pin held
      exact ⟨p, member, (keys p member).trans key, frame, owed⟩

/-! Closing. -/

theorem closeFile_shared (rep : e.Represents host (st, g)) (shared : 1 < st.openCnt name) :
    ∃ e', e.closeFile name = some (.ok, e') ∧
      e'.Represents host (st.closed name,
        { g with opens := update g.opens name (g.opens name - 1) }) := by
  obtain ⟨names, opens, latest, pins, pages⟩ := rep
  have isOpen : 0 < st.openCnt name := by omega
  have here := names.listed name isOpen
  have run := DB.closeFile_shared (noFaults : Faults Block) true here.pointer here.object
    (by simpa using shared)
  have count : ((st.openCnt name : Int) - 1) = (st.openCnt name - 1 : Nat) := by omega
  refine ⟨{ e with db := e.db.setFile (e.filePtrs name) (some ⟨name, (st.openCnt name - 1 : Nat)⟩)
    }, ?_, ?_, ?_, latest, pins, pages.recount rfl rfl rfl (fun other => ?_) rfl rfl rfl⟩
  · simp only [closeFile, run, count, DB.setFile, update_self, reduceCtorEq, and_false, if_false]
  · exact names.recount isOpen (by omega) rfl rfl rfl
  · change update g.opens name (g.opens name - 1) = update st.openCnt name (st.openCnt name - 1)
    rw [show g.opens = st.openCnt from opens]
  · by_cases same : other = name
    · subst same
      simp only [Flat.openCnt_closed, isOpen, iff_true]
      omega
    · rw [openCnt_closed_of_ne st same]

theorem db_closeFile_last {db : DB bufs Block} {file : FilePtr} {table : OpenFileHashTbl}
    (pointer : file ≠ 0) (live : db.files file = some ⟨name, 1⟩)
    (removed : db.openFiles.remove name = some table) :
    db.closeFile file noFaults true =
      some (.ok, ⟨table, update db.files file none, (db.bufMgr.flushFile file noFaults).2⟩) := by
  simp [DB.closeFile, pointer, live, DB.close, DB.setFile, DB.dropClosed, removed]

/-- With the last reference the pages go back to the UNIX file. -/
theorem closeFile_last (rep : e.Represents host (st, g)) (last : st.openCnt name = 1)
    (unpinned : ∀ p ∈ g.pins, p.1 ≠ name) :
    ∃ e', e.closeFile name = some (.ok, e') ∧
      e'.Represents host (st.closed name,
        { g with opens := update g.opens name (g.opens name - 1) }) := by
  obtain ⟨names, opens, latest, pins, pages⟩ := rep
  have isOpen : 0 < st.openCnt name := by omega
  have here := names.listed name isOpen
  have live : e.db.files (e.filePtrs name) = some ⟨name, 1⟩ := by
    rw [here.object, last]
    rfl
  have removable : e.db.openFiles.remove name ≠ none := fun absent => by
    have entry := here.entry
    rw [ChainedTable.remove_eq_none.mp absent] at entry
    cases entry
  obtain ⟨table, removed⟩ := Option.ne_none_iff_exists'.mp removable
  have lookup := ChainedTable.lookup_remove removed
  obtain ⟨m, flushed, pages', gone⟩ := pages.flushFile names isOpen unpinned
  have run := db_closeFile_last here.pointer live removed
  rw [flushed] at run
  have stillOpen : ∀ other, 0 < (st.closed name).openCnt other → other ≠ name ∧
      0 < st.openCnt other := by
    intro other isOpen'
    have apart : other ≠ name := by
      rintro rfl
      rw [Flat.openCnt_closed] at isOpen'
      omega
    rw [openCnt_closed_of_ne st apart] at isOpen'
    exact ⟨apart, isOpen'⟩
  refine ⟨{ e with
      db := ⟨table, update e.db.files (e.filePtrs name) none, m⟩
      directory := update e.directory name (some (m.disk (e.filePtrs name))) }, ?_, ?_, ?_, latest,
        pins, ?_⟩
  · simp only [closeFile, run, live, path_of_plain here.plain, update_self, ne_eq, reduceCtorEq,
      not_false_eq_true, and_self, if_true]
  · refine ⟨fun other isOpen' => ?_, fun other closed => ?_, ?_, fun other plain closed => ?_,
      names.creatable⟩
    · obtain ⟨apart, isOpen'⟩ := stillOpen other isOpen'
      have there := names.listed other isOpen'
      rw [openCnt_closed_of_ne st apart]
      refine ⟨?_, there.pointer, ?_, there.named, there.plain⟩
      · change table.lookup other = _
        rw [lookup, if_neg apart]
        exact there.entry
      · exact (update_of_ne (names.others isOpen apart isOpen') ..).trans there.object
    · change table.lookup other = none
      rw [lookup]
      split
      next => rfl
      next apart =>
        rw [openCnt_closed_of_ne st apart] at closed
        exact names.unlisted other closed
    · refine names.finite.subset fun file object => ?_
      change update e.db.files (e.filePtrs name) none file ≠ none at object
      by_cases same : file = e.filePtrs name
      · rw [same, update_self] at object
        exact absurd rfl object
      · rwa [update_of_ne same] at object
    · change UnixFile.Stored (update e.directory name (some (m.disk (e.filePtrs name))) other)
        (st.files other)
      by_cases same : other = name
      · subst same
        obtain ⟨f, there, mirrors⟩ := pages'.contents other isOpen
        rw [update_self, there]
        refine .present (pages'.cache.sound _) (mirrors.congr rfl fun n has => ?_)
        exact pages'.cache.outside (e.filePtrs other, n) has fun i held => gone i _ held rfl
      · rw [update_of_ne same]
        rw [openCnt_closed_of_ne st same] at closed
        exact names.stored other plain closed
  · change update g.opens name (g.opens name - 1) = update st.openCnt name (st.openCnt name - 1)
    rw [show g.opens = st.openCnt from opens]
  · refine ⟨pages'.cache, pages'.null, fun i k held => ?_, fun other isOpen' => ?_, pages'.pinned,
      fun p member => ?_, pages'.owner, pages'.single⟩
    · obtain ⟨other, isOpen', file⟩ := pages'.owned i k held
      have apart : other ≠ name := by
        rintro rfl
        exact gone i k held file.symm
      exact ⟨other, by rwa [openCnt_closed_of_ne st apart], file⟩
    · exact pages'.contents other (stillOpen other isOpen').2
    · rw [openCnt_closed_of_ne st (unpinned p member)]
      exact pages'.inUse p member

/-! Creating and destroying. -/

theorem follow_paths (e : Engine bufs) : e.follow e.paths = e := by
  have same : (fun path => if e.paths path then some ((e.directory path).getD .create) else none) =
      e.directory := by
    funext path
    unfold paths
    cases e.directory path <;> rfl
  unfold follow
  rw [same]

theorem directory_follow_of_ne (e : Engine bufs) {other : Name} (here : Bool)
    (apart : other ≠ name) :
    (e.follow (update e.paths name here)).directory other = e.directory other := by
  change (if update e.paths name here other then some ((e.directory other).getD .create) else none) = _
  rw [update_of_ne apart]
  exact congrFun (congrArg Engine.directory (follow_paths e)) other

theorem Represents.follow (rep : e.Represents host (st, g)) (closed : st.openCnt name = 0)
    (here : Bool) (f : Option FlatFile)
    (stored : UnixFile.Stored ((e.follow (update e.paths name here)).directory name) f) :
    (e.follow (update e.paths name here)).Represents host
      ({ st with files := update st.files name f }, g) := by
  obtain ⟨names, opens, latest, pins, pages⟩ := rep
  refine ⟨⟨fun other isOpen => ?_, names.unlisted, names.finite, fun other plain closed' => ?_,
    names.creatable⟩, opens,
    latest, pins, pages.cache, pages.null, pages.owned, fun other isOpen => ?_, pages.pinned,
    pages.inUse, pages.owner, pages.single⟩
  · have there := names.listed other isOpen
    exact ⟨there.entry, there.pointer, there.object, there.named, there.plain⟩
  · change UnixFile.Stored _ (update st.files name f other)
    by_cases same : other = name
    · subst same
      rw [update_self]
      exact stored
    · rw [update_of_ne same, directory_follow_of_ne e here same]
      exact names.stored other plain closed'
  · have apart : other ≠ name := by
      rintro rfl
      change 0 < st.openCnt other at isOpen
      omega
    obtain ⟨f', there, mirrors⟩ := pages.contents other isOpen
    exact ⟨f', (update_of_ne apart ..).trans there, mirrors⟩

theorem create_mirrors (st : Flat) :
    (UnixFile.create : UnixFile Block).Mirrors UnixFile.create.page st.emptyFile := by
  have header := UnixFile.create_header (P := Block)
  refine ⟨by rw [header], by rw [header]; rfl, by rw [header]; rfl, fun n low high => ?_⟩
  change n < 1 at high
  omega

end Minirel.Engine
