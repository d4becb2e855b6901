import Minirel.BufMgr.Supply
import Minirel.DB.OpenFiles
import Minirel.Engine
import Minirel.Engine.Ledger

/-! The flat storage that an engine stands for. Pages of open files are those
that were written last, wherever they are; pages of closed files are in their
UNIX files. -/
namespace Minirel
open BufMgr BufMgr.Clients

/-- The header page and the contents of the other pages are those of `f`; no
page has been given back. -/
structure UnixFile.Mirrors (unix : UnixFile Block) (contents : Int → Block) (f : FlatFile) :
    Prop where
  free : (dbp (unix.page 0)).nextFree = -1
  firstPage : (dbp (unix.page 0)).firstPage = f.firstPage
  numPages : (dbp (unix.page 0)).numPages = f.numPages
  pages : ∀ n, 1 ≤ n → n < f.numPages → contents n = .image (f.page n)

inductive UnixFile.Stored : Option (UnixFile Block) → Option FlatFile → Prop
  | absent : Stored none none
  | present {unix : UnixFile Block} {f : FlatFile} (sound : ∃ free, unix.Sound free)
      (mirrors : unix.Mirrors unix.page f) :
      Stored (some unix) (some f)

theorem UnixFile.Stored.isSome_eq {unix : Option (UnixFile Block)} {f : Option FlatFile}
    (stored : UnixFile.Stored unix f) :
    unix.isSome = f.isSome := by
  cases stored <;> rfl

namespace UnixFile
variable {unix : UnixFile Block} {contents : Int → Block} {f : FlatFile} {n : Int}

theorem Mirrors.hasPage_iff (mirrors : unix.Mirrors contents f) : unix.HasPage n ↔ 1 ≤ n ∧
    n < f.numPages := by
  unfold HasPage
  rw [mirrors.numPages, mirrors.free]
  refine ⟨fun has => ⟨has.1, has.2.1⟩, fun inside => ⟨inside.1, inside.2, fun free chain => ?_⟩⟩
  have none : free = [] := chain.unique rfl
  rw [none]
  exact List.not_mem_nil

theorem Mirrors.congr {unix' : UnixFile Block} {contents' : Int → Block}
    (mirrors : unix.Mirrors contents f) (header : unix'.page 0 = unix.page 0)
    (same : ∀ n, unix.HasPage n → contents' n = contents n) :
    unix'.Mirrors contents' f := by
  refine ⟨?_, ?_, ?_, fun n low high => ?_⟩
  · rw [header]
    exact mirrors.free
  · rw [header]
    exact mirrors.firstPage
  · rw [header]
    exact mirrors.numPages
  · rw [same n (mirrors.hasPage_iff.mpr ⟨low, high⟩)]
    exact mirrors.pages n low high

end UnixFile

namespace Engine
variable {bufs : Nat}

def key (e : Engine bufs) (p : Name × Int) : FilePtr × Int := (e.filePtrs p.1, p.2)

structure Listed (e : Engine bufs) (name : Name) (count : Nat) : Prop where
  entry : e.db.openFiles.lookup name = some (e.filePtrs name)
  pointer : e.filePtrs name ≠ 0
  object : e.db.files (e.filePtrs name) = some ⟨name, count⟩
  named : name ≠ []
  plain : 0 ∉ name

structure Names (host : Host) (e : Engine bufs) (st : Flat) : Prop where
  listed : ∀ name, 0 < st.openCnt name → e.Listed name (st.openCnt name)
  unlisted : ∀ name, st.openCnt name = 0 → e.db.openFiles.lookup name = none
  finite : {file | e.db.files file ≠ none}.Finite
  stored : ∀ name, 0 ∉ name → st.openCnt name = 0 → UnixFile.Stored (e.directory name) (st.files name)
  creatable : st.creatable = host.creatable

structure Pages (e : Engine bufs) (st : Flat) (g : Ledger) (latest : FilePtr × Int → Block)
    (pins : List (Pin bufs)) :
    Prop where
  cache : Invariant ⟨e.db.bufMgr, latest, pins⟩
  null : e.db.bufMgr.Null
  owned : ∀ i k, (e.db.bufMgr.bufTable i).key = some k → ∃ name, 0 < st.openCnt name ∧
    e.filePtrs name = k.1
  contents : ∀ name, 0 < st.openCnt name → ∃ f, st.files name = some f ∧
    (e.db.bufMgr.disk (e.filePtrs name)).Mirrors (fun n => latest (e.filePtrs name, n)) f
  pinned : (pins.map Pin.key).Perm (g.pins.map e.key)
  inUse : ∀ p ∈ g.pins, 0 < st.openCnt p.1
  owner : ∀ pin ∈ pins, ∃ p ∈ g.pins, e.key p = pin.key ∧ e.frames p = some pin.frame ∧
    (pin.wrote = true → p ∈ g.owed)
  single : ∀ pin : Pin bufs, pin.wrote = true → pins.count pin ≤ 1

/-- The engine stands for the flat storage, with the ledger of its clients. -/
structure Represents (host : Host) (e : Engine bufs) (s : Flat × Ledger) : Prop where
  names : e.Names host s.1
  opens : s.2.opens = s.1.openCnt
  pages : ∃ latest pins, e.Pages s.1 s.2 latest pins

variable {host : Host} {e : Engine bufs} {st : Flat} {g : Ledger} {latest : FilePtr × Int → Block}
  {pins : List (Pin bufs)} {name : Name} {n : Int} {p q : Name × Int}

theorem Names.injective (names : e.Names host st) {a b : Name} (openA : 0 < st.openCnt a)
    (openB : 0 < st.openCnt b) (same : e.filePtrs a = e.filePtrs b) : a = b := by
  have object := (names.listed a openA).object
  rw [same, (names.listed b openB).object] at object
  exact (congrArg File.fileName (Option.some.inj object)).symm

namespace Pages

theorem key_injective (pages : e.Pages st g latest pins) (names : e.Names host st)
    (first : p ∈ g.pins) (second : q ∈ g.pins) (same : e.key p = e.key q) : p = q :=
  have file : (e.key p).1 = (e.key q).1 := congrArg Prod.fst same
  have page : (e.key p).2 = (e.key q).2 := congrArg Prod.snd same
  Prod.ext (names.injective (pages.inUse p first) (pages.inUse q second) file) page

/-- The pins on a page that a client has pinned. -/
theorem owner_of_key (pages : e.Pages st g latest pins) (names : e.Names host st)
    (member : p ∈ g.pins) {pin : Pin bufs} (held : pin ∈ pins) (same : pin.key = e.key p) :
    e.frames p = some pin.frame ∧ (pin.wrote = true → p ∈ g.owed) := by
  obtain ⟨q, member', key, frame, owed⟩ := pages.owner pin held
  obtain rfl := pages.key_injective names member' member (key.trans same)
  exact ⟨frame, owed⟩

theorem exists_pin (pages : e.Pages st g latest pins) (member : p ∈ g.pins) :
    ∃ pin ∈ pins, pin.key = e.key p := by
  have here : e.key p ∈ pins.map Pin.key := pages.pinned.mem_iff.mpr (List.mem_map_of_mem member)
  exact List.mem_map.mp here

/-- Two pins on a page by clients that both wrote, or both did not, are one. -/
theorem writer_unique (pages : e.Pages st g latest pins) {a b : Pin bufs} (memberA : a ∈ pins)
    (memberB : b ∈ pins) (same : a.key = b.key) (wrote : a.wrote = b.wrote) : a = b := by
  have frame : a.frame = b.frame :=
    pages.cache.toMapped.unique (pages.cache.held a memberA) (same ▸ pages.cache.held b memberB)
  obtain ⟨fileA, pageA, frameA, wroteA⟩ := a
  obtain ⟨fileB, pageB, frameB, wroteB⟩ := b
  cases frame
  cases wrote
  cases same
  rfl

/-- A pin on the page such that no other one has written to it. -/
theorem exists_writer (pages : e.Pages st g latest pins) (member : p ∈ g.pins) :
    ∃ pin ∈ pins, pin.key = e.key p ∧ ∀ other ∈ pins.erase pin, other.key = e.key p →
      other.wrote = false := by
  by_cases wrote : ∃ pin ∈ pins, pin.key = e.key p ∧ pin.wrote = true
  · obtain ⟨pin, held, key, wrote⟩ := wrote
    refine ⟨pin, held, key, fun other held' key' => ?_⟩
    by_contra wrote'
    have same := pages.writer_unique (List.mem_of_mem_erase held') held (key'.trans key.symm)
      ((by simpa using wrote' : other.wrote = true).trans wrote.symm)
    have twice := List.count_pos_iff.mpr (same ▸ held')
    rw [List.count_erase_self] at twice
    have once := pages.single pin wrote
    omega
  · push Not at wrote
    obtain ⟨pin, held, key⟩ := pages.exists_pin member
    exact ⟨pin, held, key, fun other held' key' =>
      by simpa using wrote other (List.mem_of_mem_erase held') key'⟩

/-- A page that was not written to, or is pinned twice, has a pin that did not
write. -/
theorem exists_reader (pages : e.Pages st g latest pins) (names : e.Names host st)
    (member : p ∈ g.pins) (settled : p ∈ g.owed → 2 ≤ g.pins.count p) :
    ∃ pin ∈ pins, pin.key = e.key p ∧ pin.wrote = false := by
  by_contra all
  push Not at all
  obtain ⟨pin, held, key⟩ := pages.exists_pin member
  have wrote : pin.wrote = true := by simpa using all pin held key
  have twice := settled ((pages.owner_of_key names member held key).2 wrote)
  have copies : pins.countP (fun other => decide (other.key = e.key p)) ≤ pins.count pin := by
    rw [List.count]
    refine List.countP_mono_left fun other held' same => ?_
    have key' : other.key = e.key p := by simpa using same
    have wrote' : other.wrote = true := by simpa using all other held' key'
    rw [beq_iff_eq]
    exact pages.writer_unique held' held (key'.trans key.symm) (wrote'.trans wrote.symm)
  have counted : (g.pins.map e.key).count (e.key p) = pins.countP fun other =>
      decide (other.key = e.key p) := by
    rw [← pages.pinned.count_eq, List.count, List.countP_map]
    exact List.countP_congr fun other _ => by simp
  have more : g.pins.count p ≤ (g.pins.map e.key).count (e.key p) := List.count_le_count_map ..
  have once := pages.single pin wrote
  omega

/-- The page that a pointer leads to. -/
theorem pinned_page (pages : e.Pages st g latest pins) (names : e.Names host st)
    (member : (name, n) ∈ g.pins) :
    ∃ f, st.files name = some f ∧ 1 ≤ n ∧ n < f.numPages ∧
      ∃ i, e.frames (name, n) = some i ∧ e.db.bufMgr.bufPool i = .image (f.page n) := by
  obtain ⟨pin, held, same⟩ := pages.exists_pin member
  obtain ⟨f, there, mirrors⟩ := pages.contents name (pages.inUse _ member)
  have key := pages.cache.held pin held
  rw [same] at key
  obtain ⟨low, high⟩ := mirrors.hasPage_iff.mp (pages.cache.real _ _ key)
  refine ⟨f, there, low, high, pin.frame, (pages.owner_of_key names member held same).1, ?_⟩
  exact (pages.cache.cached _ _ key).trans (mirrors.pages n low high)

end Pages
end Engine
end Minirel
