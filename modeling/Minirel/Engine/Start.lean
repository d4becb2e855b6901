import Minirel.Engine.HeapFile
import Minirel.Engine.Simulation
import Minirel.HeapFile.Object

/-! How a process starts on the files it finds, and how a heap file is created
over the engine. -/
namespace Minirel
open BufMgr BufMgr.Clients Program

namespace Engine
variable {bufs : Nat} {host : Host}

/-- A new process stands for the files it finds, all of them closed. -/
theorem start_represents [NeZero bufs] (host : Host) {directory : Name → Option (UnixFile Block)}
    {st : Flat} (stored : ∀ name, 0 ∉ name → UnixFile.Stored (directory name) (st.files name))
    (closed : ∀ name, st.openCnt name = 0) (creatable : st.creatable = host.creatable) :
    (start bufs directory).Represents host (st, .empty) := by
  have shut : ∀ name, ¬ 0 < st.openCnt name := fun name => by
    rw [closed]
    exact Nat.lt_irrefl 0
  have empty : ∀ i k, ((start bufs directory).db.bufMgr.bufTable i).key ≠ some k := by
    simp [start, BufMgr.new, BufDesc.key]
  refine ⟨⟨fun name isOpen => absurd isOpen (shut name), fun _ _ => rfl, ?_, fun name plain _ =>
    stored name plain, creatable⟩,
    (funext closed).symm, fun k => (UnixFile.create : UnixFile Block).page k.2, [],
    start_invariant ⟨fun _ => .create, fun _ => ⟨[], UnixFile.create_sound⟩, rfl⟩, fun _ _ => rfl,
    fun i k key => absurd key (empty i k), fun name isOpen => absurd isOpen (shut name), .nil, ?_,
    ?_, ?_⟩
  · simp [start]
  · simp [Ledger.empty]
  · simp
  · simp

/-- Once all files are closed nothing is lost with the process. -/
theorem Represents.restart [NeZero bufs] {e : Engine bufs} {st : Flat} {g : Ledger}
    (rep : e.Represents host (st, g)) (closed : ∀ name, st.openCnt name = 0) :
    (start bufs e.directory).Represents host (st, .empty) :=
  start_represents host (fun name plain => rep.names.stored name plain (closed name)) closed
    rep.names.creatable

/-- A program that behaves has, on the engine, one of the results it has on flat
storage. -/
theorem run_of_behaves {α : Type} {p : Prog α} {e : Engine bufs} {st : Flat} {c : Conduct}
    {post : α → Conduct → Prop} (bad : α → Prop) (rep : e.Represents host (st, c.ledger))
    (behaves : Conduct.Behaves bufs p c post) (found : c.lost = false)
    (shown : ∀ v c', post v c' → c'.lost = true → bad v)
    (runs : ∀ scratch, ∃ v t, Flat.run p { st with scratch := scratch } = some (v, t) ∧ ¬ bad v) :
    ∃ v e' st' c', Engine.run host p e = some (v, e') ∧
      (∃ scratch, Flat.run p { st with scratch := scratch } = some (v, st')) ∧ post v c' ∧
        c'.lost = false ∧
      e'.Represents host (st', c'.ledger) := by
  obtain ⟨v, e', ⟨st', g⟩, run, rep', ⟨scratch, flat⟩, c', holds, same⟩ :=
    (Conduct.served behaves found shown runs).run (implements host) rep
  have found' : c'.lost = false := by
    by_contra lost
    obtain ⟨v', t, flat', fine⟩ := runs scratch
    cases Option.some.inj (flat.symm.trans flat')
    exact fine (shown _ _ holds (by simpa using lost))
  exact ⟨v, e', st', c', run, ⟨scratch, flat⟩, holds, found', same ▸ rep'⟩

/-- A program that gets no new pages has the result it has on flat storage. -/
theorem run_of_quiet {α : Type} {p : Prog α} {e : Engine bufs} {st t : Flat} {g : Ledger}
    {post : α → Conduct → Prop} {value : α} (rep : e.Represents host (st, g))
    (behaves : Conduct.Behaves bufs p ⟨g, true, false⟩ post)
    (good : ∀ c, post value c → c.lost = false) (flat : Flat.run p st = some (value, t)) :
    ∃ e' c, Engine.run host p e = some (value, e') ∧ post value c ∧
      e'.Represents host (t, c.ledger) := by
  obtain ⟨_, e', ⟨_, _⟩, run, rep', rfl, rfl, c, holds, rfl⟩ :=
    (Conduct.served_grown behaves rfl rfl good flat).run (implements host) rep
  exact ⟨e', c, run, holds, rep'⟩

end Engine

section create
variable {bufs : Nat} {st : Flat} {g : Ledger} {name : Name}

theorem Flat.served_quiet (c : StorageCall) {reply : c.Reply} {t : Flat} (quiet : c.grows = false)
    (permitted : g.Permits bufs c) (has : st.Exists c) (answer : Flat.handle c st = some (reply, t))
    {post : c.Reply → Flat × Ledger → Prop} (holds : post reply (t, g.account c reply)) :
    (perform c).Served (Flat.service bufs) (st, g) post := by
  refine ⟨⟨permitted, has⟩, ?_⟩
  rintro reply' ⟨t', g'⟩ ⟨rfl, scratch, same, answer'⟩
  rw [same quiet] at answer'
  obtain ⟨rfl, rfl⟩ := Prod.mk.inj (Option.some.inj (answer.symm.trans answer'))
  exact holds

theorem Flat.served_grows (c : StorageCall) {reply : c.Reply} {t : Page → Flat}
    (permitted : g.Permits bufs c) (has : st.Exists c)
    (answer : ∀ scratch, Flat.handle c { st with scratch := scratch } = some (reply, t scratch))
    {post : c.Reply → Flat × Ledger → Prop}
    (holds : ∀ scratch, post reply (t scratch, g.account c reply)) :
    (perform c).Served (Flat.service bufs) (st, g) post := by
  refine ⟨⟨permitted, has⟩, ?_⟩
  rintro reply' ⟨t', g'⟩ ⟨rfl, scratch, _, answer'⟩
  obtain ⟨rfl, rfl⟩ := Prod.mk.inj (Option.some.inj ((answer scratch).symm.trans answer'))
  exact holds scratch

def grownFile (st : Flat) (first second third : Page) : FlatFile :=
  (({ st with scratch := third }.allocated
    ({ st with scratch := second }.allocated { st with scratch := first }.emptyFile)).set 2
    (.data (firstDataPage { st with scratch := third }))).set 1 (.header ⟨2, 2, 1, 0⟩)

theorem grownFile_heap (st : Flat) (first second third : Page) :
    Heap (grownFile st first second third) ⟨2, 2, 1, 0⟩
      [(2, firstDataPage { st with scratch := third })] := by
  have low : (grownFile st first second third).firstPage = 1 := rfl
  have count : (grownFile st first second third).numPages = 3 := rfl
  refine ⟨rfl, by omega, rfl, rfl, rfl, ?_, ?_, rfl, by simp⟩
  · rw [newFile_entries]
    rfl
  · intro n p member
    cases List.mem_singleton.mp member
    exact ⟨rfl, by omega, by omega, by omega, (Page.init_invariant ..).setNextPage _, rfl⟩

/-- Creating a file that is not there takes two frames. -/
theorem createHeapFile_served (absent : st.files name = none) (unopened : st.openCnt name = 0)
    (named : name ≠ []) (plain : 0 ∉ name) (creatable : st.creatable name = true)
    (unpinned : ∀ p ∈ g.pins, p.1 ≠ name) (room : g.pins.length + 2 ≤ bufs) :
    (createHeapFile name).Served (Flat.service bufs) (st, g) fun status s => status = .ok ∧
      ∃ first second third,
        s.1 = { st with scratch := third }.put name (grownFile st first second third) ∧
        Conduct.Returned g ⟨s.2, false, false⟩ := by
  -- the file after each call, and the storage with it open
  obtain ⟨opened, isOpened⟩ : ∃ opened : Page → FlatFile → Flat, opened = fun scratch f =>
    ({ st with scratch := scratch }.opened name).put name f := ⟨_, rfl⟩
  have there : ∀ scratch f, (opened scratch f).files name = some f := fun scratch f => by
    rw [isOpened]
    exact Flat.files_put ..
  have alloc : ∀ scratch f scratch',
    Flat.handle (.allocPage name) { opened scratch f with scratch := scratch' } =
      some (.ok f.numPages, opened scratch' ({ st with scratch := scratch' }.allocated f)) :=
        fun scratch f scratch' => by
    simp [Flat.handle, isOpened, Flat.put, Flat.opened]
    rfl
  have store : ∀ scratch f n image, Flat.handle (.store name n image) (opened scratch f) =
      some ((), opened scratch (f.set n image)) := fun scratch f n image => by
    simp [Flat.handle, isOpened]
  have load : ∀ scratch f n, Flat.handle (.load name n) (opened scratch f) =
      some (f.page n, opened scratch f) :=
    fun scratch f n => by simp [Flat.handle, isOpened]
  have unpin : ∀ scratch f n, Flat.handle (.unPinPage name n true) (opened scratch f) =
      some (.ok, opened scratch f) :=
    fun scratch f n => by simp [Flat.handle, isOpened]
  have unknown : Flat.handle (.openFile name) st = some (.unixErr, st) := by
    simp [Flat.handle, named, absent, unopened]
  have create : ∀ scratch, Flat.handle (.createFile name) { st with scratch := scratch } =
      some (.ok, { st with scratch := scratch }.put name
        { st with scratch := scratch }.emptyFile) := fun scratch => by
    simp [Flat.handle, named, absent, unopened, creatable]
  have reopen : ∀ scratch, Flat.handle (.openFile name)
      ({ st with scratch := scratch }.put name { st with scratch := scratch }.emptyFile) =
        some (.ok, opened scratch { st with scratch := scratch }.emptyFile) := fun scratch => by
    simp [Flat.handle, named, isOpened]
  have close : ∀ scratch f, Flat.handle (.closeFile name) (opened scratch f) =
      some (.ok, { st with scratch := scratch }.put name f) := fun scratch f => by
    simp [Flat.handle, isOpened]
  simp only [createHeapFile, served_bind, served_ite, served_pure]
  refine Flat.served_quiet (.openFile name) rfl plain trivial unknown
    ⟨fun other => (by cases other), fun _ => ?_⟩
  refine Flat.served_grows (.createFile name) plain trivial create fun first =>
    ⟨fun failed => absurd rfl failed, fun _ => ?_⟩
  refine Flat.served_quiet (.openFile name) rfl plain trivial (reopen first)
    ⟨fun failed => absurd rfl failed, fun _ => ?_⟩
  have isOpen : 0 < Function.update g.opens name (g.opens name + 1) name := by simp
  refine Flat.served_grows (.allocPage name) ⟨isOpen, by change g.pins.length < bufs; omega⟩ trivial
    (alloc first _)
    fun second => ?_
  simp only [served_bind]
  refine Flat.served_grows (.allocPage name) ⟨isOpen, by change g.pins.length + 1 < bufs; omega⟩
    trivial (alloc second _)
    fun third => ?_
  simp only [served_bind, served_ite, served_pure]
  -- both pages are pinned and owed now, and both are released as dirty
  have pinned : ∀ owed n, n = 2 ∨ n = 1 →
    (name, n) ∈ (Ledger.mk (Function.update g.opens name (g.opens name + 1))
      ((name, 2) :: (name, 1) :: g.pins) owed).pins := by simp
  change (Storage.page name 2).Served (Flat.service bufs) (opened third _, Ledger.mk
    (Function.update g.opens name (g.opens name + 1)) ((name, 2) :: (name, 1) :: g.pins)
    (insert (name, 2) (insert (name, 1) g.owed))) _
  refine ⟨⟨pinned _ 2 (.inl rfl), trivial⟩, ?_⟩
  rintro image ⟨t, books⟩ ⟨isBooks, scratch, same, answer⟩
  rw [same rfl] at answer
  obtain ⟨rfl, rfl⟩ := Prod.mk.inj (Option.some.inj ((load third _ 2).symm.trans answer))
  cases isBooks
  refine Flat.served_quiet (.store name 2 (.data (firstDataPage { st with scratch := third }))) rfl
    (pinned _ 2 (.inl rfl))
    trivial (store third _ 2 _) ?_
  refine Flat.served_quiet (.store name 1 (.header ⟨2, 2, 1, 0⟩)) rfl (pinned _ 1 (.inr rfl))
    trivial (store third _ 1 _) ?_
  refine Flat.served_quiet (.unPinPage name 2 true) rfl
    ⟨pinned _ 2 (.inl rfl), fun clean => by cases clean⟩ trivial
    (unpin third _ _) ⟨fun failed => absurd rfl failed, fun _ => ?_⟩
  have one : ((name, (2 : Int)) :: (name, 1) :: g.pins).erase (name, 2) = (name, 1) :: g.pins :=
    List.erase_cons_head ..
  have both : (((name, (2 : Int)) :: (name, 1) :: g.pins).erase (name, 2)).erase (name, 1) =
      g.pins := by
    rw [one]
    exact List.erase_cons_head ..
  refine Flat.served_quiet (.unPinPage name 1 true) rfl
    ⟨show (name, (1 : Int)) ∈ ((name, (2 : Int)) :: (name, 1) :: g.pins).erase (name, 2) by
      rw [one]; simp,
      fun clean => by cases clean⟩ trivial (unpin third _ _)
        ⟨fun failed => absurd rfl failed, fun _ => ?_⟩
  have free : ∀ p ∈ (((name, (2 : Int)) :: (name, 1) :: g.pins).erase (name, 2)).erase (name, 1),
      p.1 ≠ name := by
    rw [both]
    exact unpinned
  refine Flat.served_quiet (.flushFile name) rfl ⟨isOpen, free⟩ trivial rfl
    ⟨fun failed => absurd rfl failed, fun _ => ?_⟩
  refine Flat.served_quiet (.closeFile name) rfl ⟨isOpen, fun _ => free⟩ trivial (close third _)
    ⟨rfl, first, second, third, rfl, rfl, ?_, ?_, ?_⟩
  · simp [Ledger.account]
  · exact .of_eq both
  · intro p owed
    simp only [Ledger.account, if_true, Finset.mem_erase, Finset.mem_insert] at owed
    tauto

end create

noncomputable def Host.any : Host where
  creatable _ := true
  address files := Classical.epsilon fun file => file ≠ 0 ∧ files file = none
  fresh files finite := by
    obtain ⟨file, free⟩ := (finite.insert 0).infinite_compl.nonempty
    have some : ∃ file, file ≠ 0 ∧ files file = none := ⟨file, by simpa using free⟩
    exact Classical.epsilon_spec some
  recast _ := .blank

/-- Whatever a program asks of flat storage, within the rules, the engine with its
buffers does as well: the program returns, and the engine then stands for the
storage that the program has left. -/
theorem Engine.programs_refine_flat {bufs : Nat} {host : Host} {α : Type} {p : Prog α}
    {e : Engine bufs} {st : Flat} {g : Ledger}
    {post : α → Flat × Ledger → Prop} (rep : e.Represents host (st, g))
    (served : p.Served (Flat.service bufs) (st, g) post) :
    ∃ value e' s, Engine.run host p e = some (value, e') ∧ e'.Represents host s ∧ post value s :=
  served.run (implements host) rep

/-- Two frames are enough to create a file. -/
theorem Engine.programs_refine_flat_created : ∃ e : Engine 2,
    Engine.run .any (createHeapFile [97]) (.start 2 fun _ => none) = some (.ok, e) ∧
      ∃ s : Flat × Ledger, e.Represents .any s ∧ s.1.files [97] ≠ none := by
  have rep : (Engine.start 2 fun _ => none).Represents .any (.empty, .empty) :=
    start_represents _ (fun _ _ => .absent) (fun _ => rfl) rfl
  have served : (createHeapFile [97]).Served (Flat.service 2) (.empty, .empty) _ :=
    createHeapFile_served rfl rfl (by simp) (by simp) rfl (by simp [Ledger.empty])
      (by simp [Ledger.empty])
  obtain ⟨_, e, s, run, rep', rfl, first, second, third, stored, _⟩ := programs_refine_flat rep served
  exact ⟨e, run, s, rep', by rw [stored]; simp⟩

end Minirel
