import Minirel.Engine.Rep

/-! The calls on pages, as the pool carries them out and as flat storage does. -/
namespace Minirel.Engine
open BufMgr BufMgr.Clients Function
variable {bufs : Nat} {host : Host} {e : Engine bufs} {st : Flat} {g : Ledger}
    {latest : FilePtr × Int → Block}
  {pins : List (Pin bufs)} {name : Name} {n : Int} {r : BufMgr bufs Block}
  {new : FilePtr × Int → Prop}

/-- The pool and the pointers into it do not matter. -/
theorem Names.congr {e' : Engine bufs} (names : e.Names host st)
    (table : e'.db.openFiles = e.db.openFiles)
    (objects : e'.db.files = e.db.files) (pointers : e'.filePtrs = e.filePtrs)
    (directory : e'.directory = e.directory) :
    e'.Names host st := by
  refine ⟨fun name isOpen => ?_, table ▸ names.unlisted, objects ▸ names.finite,
    directory ▸ names.stored, names.creatable⟩
  obtain ⟨entry, pointer, object, named, plain⟩ := names.listed name isOpen
  exact ⟨by rw [table, pointers, entry], pointers ▸ pointer, by rw [objects, pointers, object],
    named, plain⟩

theorem Names.withMgr (names : e.Names host st) (m : BufMgr bufs Block) :
    (e.withMgr m).Names host st :=
  names.congr rfl rfl rfl rfl

theorem Names.pointTo (names : e.Names host st) (p : Name × Int) (i : Fin bufs) :
    (e.pointTo p i).Names host st :=
  names.congr rfl rfl rfl rfl

@[simp] theorem pointTo_frames_self (e : Engine bufs) (p : Name × Int) (i : Fin bufs) :
    (e.pointTo p i).frames p = some i := update_self ..

theorem pointTo_frames_of_ne (e : Engine bufs) {p q : Name × Int} (i : Fin bufs) (apart : q ≠ p) :
    (e.pointTo p i).frames q = e.frames q := update_of_ne apart ..

theorem Names.put (names : e.Names host st) (isOpen : 0 < st.openCnt name) (f : FlatFile) :
    e.Names host (st.put name f) := by
  refine ⟨names.listed, names.unlisted, names.finite, fun other plain closed => ?_, names.creatable⟩
  have apart : other ≠ name := by
    rintro rfl
    exact absurd closed (Nat.ne_of_gt isOpen)
  rw [Flat.files_put_of_ne f apart]
  exact names.stored other plain closed

namespace Pages

theorem room (pages : e.Pages st g latest pins) (room : g.pins.length < bufs) :
    pins.length < bufs := by
  have same := pages.pinned.length_eq
  simp only [List.length_map] at same
  omega

theorem owned_gentle (pages : e.Pages st g latest pins) (gentle : Gentle e.db.bufMgr new r)
    (known : ∀ k, new k → ∃ name, 0 < st.openCnt name ∧ e.filePtrs name = k.1) (i : Fin bufs)
    (k : FilePtr × Int) (held : (r.bufTable i).key = some k) : ∃ name, 0 < st.openCnt name ∧
      e.filePtrs name = k.1 := by
  rcases gentle.keys i k held with new | ⟨j, held⟩
  · exact known k new
  · exact pages.owned j k held

theorem contents_gentle (pages : e.Pages st g latest pins) (gentle : Gentle e.db.bufMgr new r)
    (name : Name) (isOpen : 0 < st.openCnt name) : ∃ f, st.files name = some f ∧
      (r.disk (e.filePtrs name)).Mirrors (fun n => latest (e.filePtrs name, n)) f := by
  obtain ⟨f, there, mirrors⟩ := pages.contents name isOpen
  exact ⟨f, there, mirrors.congr (gentle.header _) fun _ _ => rfl⟩

theorem readPage (pages : e.Pages st g latest pins) (isOpen : 0 < st.openCnt name)
    (room : g.pins.length < bufs) {f : FlatFile} (there : st.files name = some f) (low : 1 ≤ n)
    (high : n < f.numPages) :
    ∃ i m, e.db.bufMgr.readPage (e.filePtrs name) n noFaults = (.ok i, m) ∧
      Pages ((e.withMgr m).pointTo (name, n) i) st { g with pins := (name, n) :: g.pins } latest
        (⟨e.filePtrs name, n, i, false⟩ :: pins) := by
  obtain ⟨f', there', mirrors⟩ := pages.contents name isOpen
  obtain rfl := Option.some.inj (there.symm.trans there')
  have has := mirrors.hasPage_iff.mpr ⟨low, high⟩
  obtain ⟨i, m, run, gentle⟩ := readPage_ok pages.cache (pages.room room) has
  have cache : Invariant ⟨m, latest, ⟨e.filePtrs name, n, i, false⟩ :: pins⟩ := by
    have next := readPage_invariant pages.cache has
    unfold Clients.readPage at next
    rwa [run] at next
  refine ⟨i, m, run, cache, gentle.null pages.null, pages.owned_gentle gentle ?_,
    pages.contents_gentle gentle, pages.pinned.cons _, ?_, ?_, ?_⟩
  · rintro k rfl
    exact ⟨name, isOpen, rfl⟩
  · rw [List.forall_mem_cons]
    exact ⟨isOpen, pages.inUse⟩
  · rw [List.forall_mem_cons]
    refine ⟨⟨(name, n), List.mem_cons_self, rfl, pointTo_frames_self .., fun wrote =>
      by cases wrote⟩, fun pin held => ?_⟩
    obtain ⟨p, member, key, frame, owed⟩ := pages.owner pin held
    refine ⟨p, List.mem_cons_of_mem _ member, key, ?_, owed⟩
    by_cases here : p = (name, n)
    · subst here
      have taken : (m.bufTable i).key = some (e.key (name, n)) := cache.held _ List.mem_cons_self
      have same := cache.toMapped.unique (cache.held pin (List.mem_cons_of_mem _ held))
        (taken.trans (by rw [key]))
      rw [pointTo_frames_self, same]
    · rw [pointTo_frames_of_ne _ _ here]
      exact frame
  · intro pin wrote
    rw [List.count_cons_of_ne]
    · exact pages.single pin wrote
    · rintro rfl
      cases wrote

theorem unPin (pages : e.Pages st g latest pins) (names : e.Names host st)
    (member : (name, n) ∈ g.pins) {dirty : Bool}
    {pin : Pin bufs} (held : pin ∈ pins) (same : pin.key = e.key (name, n))
    (honest : pin.wrote = true → dirty = true)
    (settled : dirty = true → ∀ other ∈ pins.erase pin, other.key = e.key (name, n) →
      other.wrote = false) :
    ∃ m, e.db.bufMgr.unPinPage (e.filePtrs name) n dirty = (.ok, m) ∧
      Pages (e.withMgr m) st
        { g with pins := g.pins.erase (name, n), owed :=
          if dirty then g.owed.erase (name, n) else g.owed }
        latest (pins.erase pin) := by
  have key := pages.cache.held pin held
  have pinned : (e.db.bufMgr.bufTable pin.frame).pinCnt ≠ 0 := by
    rw [pages.cache.counted, countP_erase held, if_pos rfl]
    omega
  have run : e.db.bufMgr.unPinPage pin.file pin.pageNo dirty = (.ok, _) :=
    unPinPage_found ((pages.cache.entry pin.key pin.frame).mpr key) pinned
  have gentle : Gentle e.db.bufMgr (fun _ => False)
      (e.db.bufMgr.unPinPage pin.file pin.pageNo dirty).2 := by
    rw [run]
    refine .flags key ?_ _
    exact key
  have cache : Invariant ⟨(e.db.bufMgr.unPinPage pin.file pin.pageNo dirty).2, latest,
    pins.erase pin⟩ :=
    unPinPage_invariant pages.cache held honest
  have address : (pin.file, pin.pageNo) = (e.filePtrs name, n) := same
  rw [Prod.mk.injEq] at address
  have ok : (e.db.bufMgr.unPinPage pin.file pin.pageNo dirty).1 = .ok := congrArg Prod.fst run
  rw [address.1, address.2] at cache gentle ok
  have left : ((pins.erase pin).map Pin.key).Perm ((g.pins.erase (name, n)).map e.key) := by
    have before := (List.perm_cons_erase held).map Pin.key
    have after := (List.perm_cons_erase member).map e.key
    rw [List.map_cons] at before after
    rw [same] at before
    exact (before.symm.trans (pages.pinned.trans after)).cons_inv
  refine ⟨(e.db.bufMgr.unPinPage (e.filePtrs name) n dirty).2, Prod.ext ok rfl, cache,
    gentle.null pages.null,
    pages.owned_gentle gentle fun _ none => none.elim, pages.contents_gentle gentle, left,
    fun p member' => pages.inUse p (List.mem_of_mem_erase member'), ?_, ?_⟩
  · intro other held'
    obtain ⟨p, member', key', frame, owed⟩ := pages.owner other (List.mem_of_mem_erase held')
    have still : p ∈ g.pins.erase (name, n) := by
      by_cases here : p = (name, n)
      · obtain ⟨q, member'', key''⟩ := List.mem_map.mp (left.mem_iff.mp (List.mem_map_of_mem held'))
        rw [pages.key_injective names member' (List.mem_of_mem_erase member'') (key'.trans key''.symm)]
        exact member''
      · exact (List.mem_erase_of_ne here).mpr member'
    refine ⟨p, still, key', frame, fun wrote => ?_⟩
    cases dirty with
    | false => exact owed wrote
    | true =>
      refine Finset.mem_erase.mpr ⟨fun here => ?_, owed wrote⟩
      rw [settled rfl other held' (by rw [← key', here])] at wrote
      cases wrote
  · exact fun other wrote => (List.erase_sublist.count_le other).trans (pages.single other wrote)

theorem unPinPage (pages : e.Pages st g latest pins) (names : e.Names host st) {dirty : Bool}
    (permitted : g.Permits bufs (.unPinPage name n dirty)) :
    ∃ m pins', e.db.bufMgr.unPinPage (e.filePtrs name) n dirty = (.ok, m) ∧
      Pages (e.withMgr m) st
        { g with pins := g.pins.erase (name, n), owed :=
          if dirty then g.owed.erase (name, n) else g.owed } latest pins' := by
  obtain ⟨member, settled⟩ := permitted
  cases dirty with
  | true =>
    obtain ⟨pin, held, same, others⟩ := pages.exists_writer member
    obtain ⟨m, run, pages'⟩ := pages.unPin names member held same (fun _ => rfl) fun _ => others
    exact ⟨m, _, run, pages'⟩
  | false =>
    obtain ⟨pin, held, same, reader⟩ := pages.exists_reader names member (settled rfl)
    have honest : pin.wrote = true → false = true := fun wrote => reader.symm.trans wrote
    obtain ⟨m, run, pages'⟩ := pages.unPin names member held same honest fun dirty => by cases dirty
    exact ⟨m, _, run, pages'⟩

/-- One page of an open file has changed, with at most the header of the file. -/
theorem contents_put (pages : e.Pages st g latest pins) (names : e.Names host st)
    (isOpen : 0 < st.openCnt name) {f : FlatFile} {block : Block} {disk : Disk Block}
    (mine : (disk (e.filePtrs name)).Mirrors
      (fun m => update latest (e.filePtrs name, n) block (e.filePtrs name, m)) f)
    (others : ∀ file, file ≠ e.filePtrs name → (disk file).page 0 = (e.db.bufMgr.disk file).page 0)
    (other : Name) (isOpen' : 0 < st.openCnt other) : ∃ f', (st.put name f).files other = some f' ∧
      (disk (e.filePtrs other)).Mirrors
        (fun m => update latest (e.filePtrs name, n) block (e.filePtrs other, m)) f' := by
  by_cases here : other = name
  · subst here
    exact ⟨f, Flat.files_put .., mine⟩
  · have apart : e.filePtrs other ≠ e.filePtrs name := fun same =>
      here (names.injective isOpen' isOpen same)
    obtain ⟨f', there, mirrors⟩ := pages.contents other isOpen'
    refine ⟨f', (Flat.files_put_of_ne f here).trans there, mirrors.congr (others _ apart) fun m _ => ?_⟩
    exact update_of_ne (fun same => apart (congrArg Prod.fst same)) ..

theorem store (pages : e.Pages st g latest pins) (names : e.Names host st)
    (member : (name, n) ∈ g.pins) (image : Image) :
    ∃ f i latest' pins', st.files name = some f ∧ e.frames (name, n) = some i ∧
      Pages (e.withMgr (e.db.bufMgr.setPool i (.image image))) (st.put name (f.set n image))
        { g with owed := insert (name, n) g.owed } latest' pins' := by
  have isOpen := pages.inUse _ member
  obtain ⟨f, there, mirrors⟩ := pages.contents name isOpen
  obtain ⟨pin, held, same, others⟩ := pages.exists_writer member
  have cache : Invariant ⟨e.db.bufMgr.setPool pin.frame (.image image),
    update latest pin.key (.image image),
      { pin with wrote := true } :: pins.erase pin⟩ := write_invariant pages.cache held (.image image)
  rw [same] at cache
  have mine : (e.db.bufMgr.disk (e.filePtrs name)).Mirrors
      (fun m => update latest (e.key (name, n)) (.image image) (e.filePtrs name, m))
        (f.set n image) := by
    refine ⟨mirrors.free, mirrors.firstPage, mirrors.numPages, fun m low high => ?_⟩
    by_cases here : m = n
    · subst here
      rw [FlatFile.set_page_self]
      exact update_self ..
    · rw [FlatFile.set_page_of_ne f image here]
      exact (update_of_ne (fun same => here (congrArg Prod.snd same)) ..).trans
        (mirrors.pages m low high)
  refine ⟨f, pin.frame, _, _, there, (pages.owner_of_key names member held same).1, cache,
    pages.null, pages.owned,
    pages.contents_put names isOpen mine fun _ _ => rfl, ?_, pages.inUse, ?_, ?_⟩
  · exact ((List.perm_cons_erase held).map Pin.key).symm.trans pages.pinned
  · rw [List.forall_mem_cons]
    refine ⟨⟨(name, n), member, same.symm, (pages.owner_of_key names member held same).1, fun _ =>
      Finset.mem_insert_self ..⟩, fun other held' => ?_⟩
    obtain ⟨p, member', key, frame, owed⟩ := pages.owner other (List.mem_of_mem_erase held')
    exact ⟨p, member', key, frame, fun wrote => Finset.mem_insert_of_mem (owed wrote)⟩
  · intro other wrote
    rw [List.count_cons]
    split
    next here =>
      have none : (pins.erase pin).count other = 0 := by
        rw [List.count_eq_zero]
        intro held'
        have here : { pin with wrote := true } = other := by simpa using here
        rw [others other held' (by rw [← here]; exact same)] at wrote
        cases wrote
      omega
    next => exact (List.erase_sublist.count_le other).trans (pages.single other wrote)

theorem sound_nil (pages : e.Pages st g latest pins) (isOpen : 0 < st.openCnt name) :
    (e.db.bufMgr.disk (e.filePtrs name)).Sound [] := by
  obtain ⟨free, sound⟩ := pages.cache.sound (e.filePtrs name)
  obtain ⟨f, _, mirrors⟩ := pages.contents name isOpen
  have chain := sound.chain
  rw [mirrors.free] at chain
  have none : free = [] := chain.unique rfl
  rwa [← none]

/-- A page is added behind the others, with what its frame holds. -/
theorem allocPage (pages : e.Pages st g latest pins) (names : e.Names host st)
    (isOpen : 0 < st.openCnt name) (room : g.pins.length < bufs) :
    ∃ f i m scratch latest' pins', st.files name = some f ∧
      e.db.bufMgr.allocPage (e.filePtrs name) noFaults = (.ok (f.numPages, i), m) ∧
        scratch = host.asPage (m.bufPool i) ∧
      Pages ((e.withMgr (m.setPool i (.image (.data scratch)))).pointTo (name, f.numPages) i)
        (st.put name ({ st with scratch := scratch }.allocated f))
        { g with pins := (name, f.numPages) :: g.pins, owed := insert (name, f.numPages) g.owed }
          latest' pins' := by
  obtain ⟨f, there, mirrors⟩ := pages.contents name isOpen
  have sound := pages.sound_nil isOpen
  have size : (e.db.bufMgr.disk (e.filePtrs name)).size = f.numPages :=
    sound.count.symm.trans mirrors.numPages
  obtain ⟨n, unix, i, m, granted, run, gentle⟩ := allocPage_ok pages.cache (e.filePtrs name)
    (pages.room room)
  obtain ⟨unix', granted', header⟩ := Disk.allocatePage_extend sound
  rw [granted', size] at granted
  obtain ⟨number, disk⟩ := Prod.mk.inj granted
  obtain rfl := Except.ok.inj number
  obtain rfl : unix' = unix := by
    have same := congrFun disk (e.filePtrs name)
    rwa [update_self, update_self] at same
  have headers : ∀ file, (m.disk file).page 0 =
      (update e.db.bufMgr.disk (e.filePtrs name) unix' file).page 0 := gentle.header
  have fresh : ∀ pin ∈ pins, pin.key ≠ (e.filePtrs name, f.numPages) := fun pin held same => by
    have key := pages.cache.held pin held
    rw [same] at key
    have inside := (mirrors.hasPage_iff.mp (pages.cache.real _ _ key)).2
    omega
  obtain ⟨scratch, filled⟩ : ∃ scratch, scratch = host.asPage (m.bufPool i) := ⟨_, rfl⟩
  have cache : Invariant ⟨m.setPool i (.image (.data scratch)),
      update latest (e.filePtrs name, f.numPages) (.image (.data scratch)),
      ⟨e.filePtrs name, f.numPages, i, true⟩ :: pins⟩ := by
    have next := allocPage_invariant pages.cache (e.filePtrs name)
    unfold Clients.allocPage at next
    rw [run] at next
    have written := write_invariant next List.mem_cons_self (.image (.data scratch))
    simpa only [Clients.write, Pin.key, update_idem, List.erase_cons_head] using written
  have mine : (m.disk (e.filePtrs name)).Mirrors (fun k => update latest (e.filePtrs name, f.numPages)
      (.image (.data scratch)) (e.filePtrs name, k)) ({ st with scratch := scratch }.allocated f) := by
    have fields : dbp ((m.disk (e.filePtrs name)).page 0) =
        ⟨-1, if f.firstPage = -1 then f.numPages else f.firstPage, f.numPages + 1⟩ := by
      rw [headers, update_self, header, size, mirrors.firstPage]
    refine ⟨by rw [fields], by rw [fields]; rfl, by rw [fields]; rfl, fun k low high => ?_⟩
    by_cases here : k = f.numPages
    · have newest : ({ st with scratch := scratch }.allocated f).page f.numPages = .data scratch :=
        update_self ..
      rw [here, update_self, newest]
    · have older : ({ st with scratch := scratch }.allocated f).page k = f.page k :=
        update_of_ne here ..
      have inside : k < f.numPages := by
        change k < f.numPages + 1 at high
        omega
      rw [update_of_ne fun same => here (congrArg Prod.snd same), older]
      exact mirrors.pages k low inside
  refine ⟨f, i, m, scratch, _, _, there, run, filled, cache, gentle.null pages.null, fun j k held => ?_,
    pages.contents_put names isOpen mine fun file apart => ?_, pages.pinned.cons _, ?_, ?_, ?_⟩
  · rcases gentle.keys j k held with rfl | ⟨j', held⟩
    · exact ⟨name, isOpen, rfl⟩
    · exact pages.owned j' k held
  · change (m.disk file).page 0 = _
    rw [headers, update_of_ne apart]
  · rw [List.forall_mem_cons]
    exact ⟨isOpen, pages.inUse⟩
  · rw [List.forall_mem_cons]
    refine ⟨⟨_, List.mem_cons_self, rfl, pointTo_frames_self .., fun _ =>
      Finset.mem_insert_self ..⟩, fun pin held => ?_⟩
    obtain ⟨p, member, key, frame, owed⟩ := pages.owner pin held
    refine ⟨p, List.mem_cons_of_mem _ member, key, ?_, fun wrote =>
      Finset.mem_insert_of_mem (owed wrote)⟩
    rw [pointTo_frames_of_ne]
    · exact frame
    · rintro rfl
      exact fresh pin held key.symm
  · intro pin wrote
    rw [List.count_cons]
    split
    next here =>
      have none : pins.count pin = 0 := by
        rw [List.count_eq_zero]
        intro held
        have here : ⟨e.filePtrs name, f.numPages, i, true⟩ = pin := by simpa using here
        exact fresh pin held (by rw [← here]; rfl)
      omega
    next => exact pages.single pin wrote

theorem apart (pages : e.Pages st g latest pins) (names : e.Names host st)
    (isOpen : 0 < st.openCnt name) (unpinned : ∀ p ∈ g.pins, p.1 ≠ name) :
    ∀ pin ∈ pins, pin.file ≠ e.filePtrs name := by
  intro pin held same
  obtain ⟨p, member, key, _⟩ := pages.owner pin held
  have file : e.filePtrs p.1 = pin.file := congrArg Prod.fst key
  exact unpinned p member (names.injective (pages.inUse p member) isOpen (file.trans same))

theorem flushFile (pages : e.Pages st g latest pins) (names : e.Names host st)
    (isOpen : 0 < st.openCnt name) (unpinned : ∀ p ∈ g.pins, p.1 ≠ name) :
    ∃ m, e.db.bufMgr.flushFile (e.filePtrs name) noFaults = (.ok, m) ∧
      Pages (e.withMgr m) st g latest pins ∧ ∀ i k, (m.bufTable i).key = some k →
        k.1 ≠ e.filePtrs name := by
  obtain ⟨m, run, cache, gentle, gone⟩ :=
    flushFile_ok pages.cache pages.null (names.listed name isOpen).pointer
    (pages.apart names isOpen unpinned)
  exact ⟨m, run, ⟨cache, gentle.null pages.null, pages.owned_gentle gentle fun _ none => none.elim,
    pages.contents_gentle gentle, pages.pinned, pages.inUse, pages.owner, pages.single⟩, gone⟩

end Pages
end Minirel.Engine
