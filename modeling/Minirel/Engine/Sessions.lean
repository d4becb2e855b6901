import Minirel.Engine.Start
import Minirel.HeapFile.Growth
import Minirel.HeapFile.Refinement

/-! One client of a heap file over the engine. Each call it makes has a result,
and afterwards the file still stands for the map of its records. -/
namespace Minirel
open Program Conduct

structure FileUse where
  session : Session
  live : RID → Option (List UInt8)

def Session.objects : Session → List HeapFile
  | .idle => []
  | .inserting h => [h]
  | .scanning s => [s.scan.toHeapFile]

/-- Besides what others hold there is the object of the session. -/
def Session.Books (base : Ledger) (c : Conduct) : Session → Prop
  | .idle => Returned base c
  | .inserting h => h.Holds base c
  | .scanning s => s.scan.Holds base c

structure Flat.Elsewhere (name : Name) (st t : Flat) : Prop where
  files : ∀ other, other ≠ name → t.files other = st.files other
  openCnt : ∀ other, other ≠ name → t.openCnt other = st.openCnt other

namespace Flat.Elsewhere
variable {name : Name} {st t u : Flat} {f : FlatFile}

theorem opened (name : Name) (st : Flat) : Elsewhere name st (st.opened name) :=
  ⟨fun _ _ => rfl, fun _ apart => Function.update_of_ne apart ..⟩

theorem closed (name : Name) (st : Flat) : Elsewhere name st (st.closed name) :=
  ⟨fun _ _ => rfl, fun _ apart => Function.update_of_ne apart ..⟩

theorem put (name : Name) (st : Flat) (f : FlatFile) : Elsewhere name st (st.put name f) :=
  ⟨fun _ apart => Function.update_of_ne apart .., fun _ _ => rfl⟩

theorem refl (name : Name) (st : Flat) : Elsewhere name st st := ⟨fun _ _ => rfl, fun _ _ => rfl⟩

theorem scratch (page : Page) (away : Elsewhere name { st with scratch := page } t) :
    Elsewhere name st t :=
  ⟨away.files, away.openCnt⟩

end Flat.Elsewhere

theorem Sessions.Invariant.scratch {name : Name} {st : Flat} {session : Session}
    {live : RID → Option (List UInt8)} (inv : Sessions.Invariant name ⟨st, session, live⟩)
    (page : Page) :
    Sessions.Invariant name ⟨{ st with scratch := page }, session, live⟩ := by
  obtain ⟨named, f, hdr, chain, there, heap, lists, inSession⟩ := inv
  refine ⟨named, f, hdr, chain, there, heap, lists, ?_⟩
  cases session <;> exact inSession

structure Client {bufs : Nat} (host : Host) (name : Name) (base : Ledger) (e : Engine bufs)
    (t : FileUse) (st : Flat) (c : Conduct) : Prop where
  rep : e.Represents host (st, c.ledger)
  inv : Sessions.Invariant name ⟨st, t.session, t.live⟩
  books : t.session.Books base c

theorem Conduct.Shows.found_of_not {c : Conduct} {bad good : Prop} (shows : c.Shows bad good)
    (fine : ¬ bad) :
    c.lost = false ∧ good := by
  have found : c.lost = false := by
    by_contra lost
    exact fine (shows.lost (by simpa using lost))
  exact ⟨found, shows.found found⟩

theorem Conduct.Returned.again {base : Ledger} {c : Conduct} (returned : Returned base c)
    (grown : Bool) :
    Returned base ⟨c.ledger, grown, false⟩ := ⟨rfl, returned.opens, returned.pins, returned.owed⟩

theorem HeapFile.Holds.again {base : Ledger} {h : HeapFile} {c : Conduct} (holds : h.Holds base c)
    (grown : Bool) :
    h.Holds base ⟨c.ledger, grown, false⟩ :=
  ⟨holds.current, rfl, holds.keeps.opens, holds.keeps.pins, holds.keeps.owed⟩

namespace Client
variable {bufs : Nat} {host : Host} {name : Name} {base : Ledger} {e : Engine bufs} {st st' : Flat}
    {c : Conduct}
  {live : RID → Option (List UInt8)} {h : HeapFile} {s : ScanSession} {t t' : FileUse}

/-- A call without new pages has the result it has on flat storage. -/
theorem quiet {α : Type} {p : Prog α} {v : α} {post : α → Conduct → Prop}
    (client : Client host name base e t st c) (t' : FileUse)
    (behaves : Behaves bufs p ⟨c.ledger, true, false⟩ post) (flat : Flat.run p st = some (v, st'))
    (inv : Sessions.Invariant name ⟨st', t'.session, t'.live⟩)
    (books : ∀ c', post v c' → c'.lost = false ∧ t'.session.Books base c') :
    ∃ e' c', Engine.run host p e = some (v, e') ∧ Client host name base e' t' st' c' := by
  obtain ⟨e', c', run, holds, rep⟩ :=
    Engine.run_of_quiet client.rep behaves (fun c' holds => (books c' holds).1) flat
  exact ⟨e', c', run, rep, inv, (books c' holds).2⟩

theorem openInsert (client : Client host name base e ⟨.idle, live⟩ st c) (honest : base.Honest)
    (plain : 0 ∉ name) (room : base.pins.length + 2 ≤ bufs) :
    ∃ h e' st' c', Engine.run host (InsertFileScan.new name) e = some (.ok h, e') ∧
      Client host name base e' ⟨.inserting h, live⟩ st' c' ∧ st.Elsewhere name st' := by
  obtain ⟨named, f, hdr, chain, there, heap, _, _⟩ := client.inv
  obtain ⟨h, run, opened⟩ := InsertFileScan.new_spec heap there named
  obtain ⟨e', c', engine, client'⟩ := client.quiet ⟨.inserting h, live⟩
    (InsertFileScan.new_behaves (client.books.again true) honest plain room) run
    (Sessions.Step.invariant client.inv (.openInsert run)) fun c' shows => by
      obtain ⟨found, good⟩ := shows.found_of_not fun bad => by simpa [bad h rfl] using opened.page
      exact ⟨found, (good h rfl).1⟩
  exact ⟨h, e', _, c', engine, client', .opened ..⟩

theorem insertRecord {bytes : List UInt8}
    (client : Client host name base e ⟨.inserting h, live⟩ st c) (honest : base.Honest)
    (room : base.pins.length + 3 ≤ bufs) (nonempty : 0 < bytes.length)
    (small : bytes.length ≤ 1000) :
    ∃ rid h' e' st' c', Engine.run host (InsertFileScan.insertRecord h (.ofBytes bytes)) e =
      some ((.ok rid, h'), e') ∧ live rid = none ∧
        Client host name base e' ⟨.inserting h', Function.update live rid (some bytes)⟩ st' c' ∧
      st.Elsewhere name st' := by
  obtain ⟨named, f, hdr, chain, there, heap, _, isOpen, opened⟩ := client.inv
  have set : h.curPage ≠ none := by simp [opened.page]
  have flatRun : ∀ scratch, ∃ rid h' g, Flat.run (InsertFileScan.insertRecord h (.ofBytes bytes))
      { st with scratch := scratch } =
        some ((.ok rid, h'), { st with scratch := scratch }.put name g) := fun scratch => by
    have there' : ({ st with scratch := scratch } : Flat).files name = some f := there
    obtain ⟨rid, h', g, _, _, run, _⟩ :=
      InsertFileScan.insertRecord_spec heap there' opened nonempty small
    exact ⟨rid, h', g, run⟩
  obtain ⟨⟨reply, h'⟩, e', st', c', engine, ⟨scratch, flat⟩, ⟨found, good⟩, _, rep⟩ :=
    Engine.run_of_behaves
    (c := ⟨c.ledger, false, false⟩) (fun _ => False) client.rep
    (InsertFileScan.insertRecord_behaves (client.books.again false) honest room rfl set
      (.ofBytes bytes)) rfl
    (fun v c' holds lost => by simp [holds.1] at lost) fun scratch => by
      obtain ⟨rid, h', g, run⟩ := flatRun scratch
      exact ⟨_, _, run, id⟩
  have inv := client.inv.scratch scratch
  obtain ⟨rid, h'', t, run, fresh⟩ := inv.refines.insertRecord h bytes rfl nonempty small
  obtain ⟨_, _, g, run'⟩ := flatRun scratch
  rw [flat] at run'
  cases Option.some.inj run'
  rw [flat] at run
  cases Option.some.inj run
  exact ⟨rid, h', e', _, c', engine, fresh,
    ⟨rep, Sessions.Step.invariant inv (.insertRecord nonempty small flat),
    (good rid rfl).1⟩, .scratch scratch (.put ..)⟩

theorem closeInsert (client : Client host name base e ⟨.inserting h, live⟩ st c)
    (honest : base.Honest) :
    ∃ e' st' c', Engine.run host (InsertFileScan.delete h) e = some ((), e') ∧
      Client host name base e' ⟨.idle, live⟩ st' c' ∧ st.Elsewhere name st' := by
  obtain ⟨_, f, hdr, chain, _, _, _, isOpen, opened⟩ := client.inv
  have run := InsertFileScan.delete_spec opened.file isOpen
  obtain ⟨e', c', engine, client'⟩ := client.quiet ⟨.idle, live⟩
    (InsertFileScan.delete_behaves (client.books.again true) honest) run
    (Sessions.Step.invariant client.inv (.closeInsert run)) fun c' returned =>
      ⟨returned.found, returned⟩
  exact ⟨e', _, c', engine, client', .closed ..⟩

theorem openScan (client : Client host name base e ⟨.idle, live⟩ st c) (plain : 0 ∉ name)
    (room : base.pins.length + 2 ≤ bufs) (filter : Option Filter) :
    ∃ s e' st' c', Engine.run host (HeapFileScan.new name) e = some (.ok s, e') ∧
      Client host name base e' ⟨.scanning (.begun s filter live), live⟩ st' c' ∧
      st.Elsewhere name st' := by
  obtain ⟨named, f, hdr, chain, there, heap, _, _⟩ := client.inv
  obtain ⟨s, run, _, _, _, n, _, _, _, opened, _⟩ := HeapFileScan.new_spec heap there named
  obtain ⟨e', c', engine, client'⟩ := client.quiet
    ⟨.scanning (.begun s filter live), live⟩
    (HeapFileScan.new_behaves (client.books.again true) plain room) run
    (Sessions.Step.invariant client.inv (.openScan run)) fun c' shows => by
      obtain ⟨found, good⟩ := shows.found_of_not fun bad => by simpa [bad s rfl] using opened.page
      exact ⟨found, HeapFileScan.startScan_holds (good s rfl).1 filter⟩
  exact ⟨s, e', _, c', engine, client', .opened ..⟩

/-- The next record that matches, or the end. -/
theorem scanNext (client : Client host name base e ⟨.scanning s, live⟩ st c) (honest : base.Honest)
    (room : base.pins.length + 2 ≤ bufs) :
    ∃ status t e' c', Returns (Engine.handle host) (HeapFileScan.scanNext · s.scan) e
      ((status, t), e') ∧ (status = .ok ∧ s.ended = false ∧
        Client host name base e' ⟨.scanning (s.found t), live⟩ st c' ∨ status = .fileEof ∧
          Client host name base e' ⟨.scanning (s.finished t), live⟩ st c') := by
  obtain ⟨status, t, ⟨fuel, runs⟩, cases⟩ := (client.inv.refines.scan s rfl).next
  have run := runs fuel (Nat.le_refl _)
  have behaves := HeapFileScan.scanNext_behaves fuel (client.books.again true) honest room
  have books : ¬ HeapFileScan.Unread status →
    ∀ c', HeapFileScan.Reported base s.scan.filePtr (status, t) c' →
      c'.lost = false ∧ t.Holds base c' := fun fine c' shows => by
    obtain ⟨found, good⟩ := shows.found_of_not fine
    exact ⟨found, good.1⟩
  rcases cases with ⟨rfl, more⟩ | rfl
  · obtain ⟨e', c', engine, client'⟩ := client.quiet ⟨.scanning (s.found t), live⟩ behaves run
      (Sessions.Step.invariant client.inv (.scanFound ⟨fuel, runs⟩))
        (books (by simp [HeapFileScan.Unread]))
    exact ⟨_, t, e', c', (HeapFileScan.scanNext_steady s.scan).returns engine,
      .inl ⟨rfl, more, client'⟩⟩
  · obtain ⟨e', c', engine, client'⟩ := client.quiet ⟨.scanning (s.finished t), live⟩
      behaves run (Sessions.Step.invariant client.inv (.scanEnded ⟨fuel, runs⟩))
        (books (by simp [HeapFileScan.Unread]))
    exact ⟨_, t, e', c', (HeapFileScan.scanNext_steady s.scan).returns engine, .inr ⟨rfl, client'⟩⟩

theorem deleteRecord (client : Client host name base e ⟨.scanning s, live⟩ st c)
    (standing : s.standing = true) :
    ∃ t e' st' c', Engine.run host s.scan.deleteRecord e = some ((.ok, t), e') ∧
      Client host name base e' ⟨.scanning (s.removed t), Function.update live s.scan.curRec none⟩
        st' c' ∧ st.Elsewhere name st' := by
  obtain ⟨_, f, hdr, chain, there, heap, _, _, passed, todo, progress⟩ := client.inv
  obtain ⟨b, on⟩ := progress.standing standing
  obtain ⟨t, g, _, _, _, run, _⟩ := HeapFileScan.deleteRecord_spec on heap there
  obtain ⟨e', c', engine, client'⟩ := client.quiet
    ⟨.scanning (s.removed t), Function.update live s.scan.curRec none⟩
    (HeapFileScan.deleteRecord_behaves (client.books.again true)) run
    (Sessions.Step.invariant client.inv (.deleteRecord standing run)) fun c' holds =>
      ⟨holds.1.keeps.found, holds.1⟩
  exact ⟨t, e', _, c', engine, client', .put ..⟩

theorem closeScan (client : Client host name base e ⟨.scanning s, live⟩ st c)
    (honest : base.Honest) :
    ∃ e' st' c', Engine.run host s.scan.delete e = some ((), e') ∧
      Client host name base e' ⟨.idle, live⟩ st' c' ∧ st.Elsewhere name st' := by
  obtain ⟨_, f, hdr, chain, _, _, _, isOpen, _, _, progress⟩ := client.inv
  have run := HeapFileScan.delete_spec progress.ahead.file isOpen
  obtain ⟨e', c', engine, client'⟩ := client.quiet ⟨.idle, live⟩
    (HeapFileScan.delete_behaves (client.books.again true) honest) run
    (Sessions.Step.invariant client.inv (.closeScan run)) fun c' returned => ⟨returned.found, returned⟩
  exact ⟨e', _, c', engine, client', .closed ..⟩

theorem current (client : Client host name base e ⟨.scanning s, live⟩ st c)
    (standing : s.standing = true) :
    ∃ b e' c', live s.scan.curRec = some b ∧ Engine.run host s.scan.getRecord e = some (.ok b, e') ∧
      Client host name base e' ⟨.scanning s, live⟩ st c' := by
  obtain ⟨b, _, _, bound, run, _⟩ := (client.inv.refines.scan s rfl).standing standing
  have behaves : Behaves bufs s.scan.getRecord ⟨c.ledger, true, false⟩ fun _ c' =>
      c' = ⟨c.ledger, true, false⟩ := by
    simp only [HeapFileScan.getRecord, obeys_bind, obeys_pure]
    exact (client.books.again true).page fun _ _ => rfl
  obtain ⟨e', c', engine, client'⟩ := client.quiet ⟨.scanning s, live⟩ behaves run client.inv
    fun c' same => by
    subst same
    exact ⟨rfl, client.books.again true⟩
  exact ⟨b, e', c', bound, engine, client'⟩

end Client

/-- Another object fetches a record, whatever session there is on the file. -/
theorem Engine.Represents.lookup {bufs : Nat} {host : Host} {name : Name} {base : Ledger}
    {e : Engine bufs} {st : Flat} {c : Conduct} {session : Session}
    {live : RID → Option (List UInt8)} {rid : RID} {b : List UInt8}
    (rep : e.Represents host (st, c.ledger)) (inv : Sessions.Invariant name ⟨st, session, live⟩)
    (returned : Returned base c) (honest : base.Honest) (plain : 0 ∉ name)
    (room : base.pins.length + 2 ≤ bufs) (bound : live rid = some b) :
    ∃ h e₁ h' e₂ e₃ c', Engine.run host (HeapFile.new name) e = some (.ok h, e₁) ∧
      Engine.run host (h.getRecord rid) e₁ = some ((.ok b, h'), e₂) ∧
        Engine.run host h'.delete e₂ = some ((), e₃) ∧
      e₃.Represents host (st, c'.ledger) ∧ Returned base c' := by
  obtain ⟨named, f, hdr, chain, there, heap, lists, _⟩ := inv
  obtain ⟨h, h', new, get⟩ :=
    Sessions.getRecord_listed named there heap ((lists.mem_iff rid b).mp bound)
  have set : h.curPage ≠ none := by
    rw [HeapFile.new_spec heap there named] at new
    cases Option.some.inj new
    simp
  obtain ⟨e₁, c₁, run₁, shows, rep₁⟩ :=
    Engine.run_of_quiet rep (HeapFile.new_behaves (returned.again true) plain room)
    (fun c' shows => (shows.found_of_not fun bad => set (bad h rfl)).1) new
  obtain ⟨holds, file⟩ := (shows.found_of_not fun bad => set (bad h rfl)).2 h rfl
  obtain ⟨e₂, c₂, run₂, shows, rep₂⟩ := Engine.run_of_quiet rep₁
    (HeapFile.getRecord_behaves (holds.again true) honest room)
      (fun c' shows => (shows.found_of_not (by simp)).1) get
  obtain ⟨holds', file'⟩ := (shows.found_of_not (by simp)).2
  have isOpen : (st.opened name).openCnt name ≠ 0 := by simp
  have close := HeapFile.delete_spec (file'.trans file) isOpen
  rw [Flat.closed_opened] at close
  obtain ⟨e₃, c₃, run₃, gone, rep₃⟩ :=
    Engine.run_of_quiet rep₂ (HeapFile.delete_behaves (holds'.again true) honest)
    (fun c' gone => gone.found) close
  exact ⟨h, e₁, h', e₂, e₃, c₃, run₁, run₂, run₃, rep₃, gone⟩

end Minirel
