import Minirel.Engine.Objects
import Minirel.Engine.Sessions

/-! Any number of heap files over one engine, each with a client that inserts,
or scans and deletes, and with other objects that fetch records in between. The
process may end and start again when no object is there. -/
namespace Minirel
open Program Conduct Transition Function Engine Ledger

structure Shared (bufs : Nat) where
  engine : Engine bufs
  files : Name → Option FileUse
  busy : List Name

namespace Shared
variable {bufs : Nat}

inductive Event
  | create (name : Name)
  | client (name : Name) (action : Sessions.Action)
  | lookup (name : Name) (rid : RID)
  | destroy (name : Name)
  | restart

inductive Call (host : Host) (name : Name) : Engine bufs → FileUse → Sessions.Action → Engine bufs →
    FileUse → Prop
  | openInsert (call : run host (InsertFileScan.new name) e = some (.ok h, e')) :
      Call host name e ⟨.idle, live⟩ .openInsert e' ⟨.inserting h, live⟩
  | insertRecord (nonempty : 0 < bytes.length) (small : bytes.length ≤ 1000)
      (call : run host (InsertFileScan.insertRecord h (.ofBytes bytes)) e =
        some ((.ok rid, h'), e')) :
      Call host name e ⟨.inserting h, live⟩
        (.insertRecord bytes) e' ⟨.inserting h', update live rid (some bytes)⟩
  | closeInsert (call : run host (InsertFileScan.delete h) e = some ((), e')) :
      Call host name e ⟨.inserting h, live⟩ .closeInsert e' ⟨.idle, live⟩
  | openScan (call : run host (HeapFileScan.new name) e = some (.ok s, e')) :
      Call host name e ⟨.idle, live⟩ (.openScan filter) e' ⟨.scanning (.begun s filter live), live⟩
  | scanFound (call : Returns (handle host) (HeapFileScan.scanNext · s.scan) e ((.ok, t), e')) :
      Call host name e ⟨.scanning s, live⟩ .scanNext e' ⟨.scanning (s.found t), live⟩
  | scanEnded (call : Returns (handle host) (HeapFileScan.scanNext · s.scan) e
      ((.fileEof, t), e')) :
      Call host name e ⟨.scanning s, live⟩ .scanNext e' ⟨.scanning (s.finished t), live⟩
  | deleteRecord (standing : s.standing = true)
      (call : run host s.scan.deleteRecord e = some ((.ok, t), e')) :
      Call host name e ⟨.scanning s, live⟩ .deleteRecord e'
        ⟨.scanning (s.removed t), update live s.scan.curRec none⟩
  | closeScan (call : run host s.scan.delete e = some ((), e')) :
      Call host name e ⟨.scanning s, live⟩ .closeScan e' ⟨.idle, live⟩

def occupied (busy : List Name) (name : Name) : Session → List Name
  | .idle => busy.erase name
  | _ => name :: busy.erase name

def set (w : Shared bufs) (name : Name) (e : Engine bufs) (t : FileUse) : Shared bufs :=
  ⟨e, update w.files name (some t), occupied w.busy name t.session⟩

structure Vacant (host : Host) (w : Shared bufs) (name : Name) : Prop where
  named : name ≠ []
  plain : 0 ∉ name
  unknown : w.files name = none
  absent : w.engine.directory name = none
  creatable : host.creatable name = true

/-- An object is only made if there are two frames for it and two to spare. -/
inductive Step [NeZero bufs] (host : Host) : Shared bufs → Event → Shared bufs → Prop
  | create (vacant : w.Vacant host name)
      (call : run host (createHeapFile name) w.engine = some (.ok, e)) :
      Step host w (.create name) ⟨e, update w.files name (some ⟨.idle, fun _ => none⟩), w.busy⟩
  | client (known : w.files name = some t) (room : t.session = .idle → 2 * w.busy.length + 4 ≤ bufs)
      (call : Call host name w.engine t a e t') : Step host w (.client name a) (w.set name e t')
  | lookup (known : w.files name = some t) (live : t.live rid ≠ none)
      (new : run host (HeapFile.new name) w.engine = some (.ok h, e₁))
      (get : run host (h.getRecord rid) e₁ = some ((reply, h'), e₂))
      (delete : run host h'.delete e₂ = some ((), e₃)) :
        Step host w (.lookup name rid) ⟨e₃, w.files, w.busy⟩
  | destroy (known : w.files name = some ⟨.idle, live⟩)
      (call : run host (destroyHeapFile name) w.engine = some (.ok, e)) :
      Step host w (.destroy name) ⟨e, update w.files name none, w.busy⟩
  | restart (quiet : w.busy = []) : Step host w .restart ⟨.start bufs w.engine.directory, w.files, []⟩

def Started [NeZero bufs] (w : Shared bufs) : Prop :=
  2 ≤ bufs ∧ ∃ directory, (∀ name, 0 ∉ name → ∃ f, UnixFile.Stored (directory name) f) ∧
    w = ⟨.start bufs directory, fun _ => none, []⟩

def session (w : Shared bufs) (name : Name) : Session := (w.files name).elim .idle FileUse.session

def objects (w : Shared bufs) : List HeapFile := w.busy.flatMap fun name => (w.session name).objects

def others (w : Shared bufs) (name : Name) : List HeapFile :=
  (w.busy.erase name).flatMap fun other => (w.session other).objects

/-- All files are sound and stand for their maps, and the ledger is that of the
objects. -/
structure Invariant (host : Host) (w : Shared bufs) : Prop where
  room : 2 * w.busy.length + 2 ≤ bufs
  distinct : w.busy.Nodup
  idle : ∀ name, name ∉ w.busy → w.session name = .idle
  plain : ∀ name t, w.files name = some t → 0 ∉ name
  state : ∃ st c, w.engine.Represents host (st, c.ledger) ∧
    (∀ name t, w.files name = some t → Sessions.Invariant name ⟨st, t.session, t.live⟩) ∧
      Returned (.of w.objects) c

section parts
variable {host : Host} {w : Shared bufs} {name : Name} {t t' : FileUse} {e : Engine bufs}
    {st st' : Flat} {c c' : Conduct}

theorem session_of (known : w.files name = some t) : w.session name = t.session := by
  simp [session, known]

theorem objects_perm (idle : name ∉ w.busy → w.session name = .idle) :
    w.objects.Perm ((w.session name).objects ++ w.others name) := by
  by_cases member : name ∈ w.busy
  · exact (List.perm_cons_erase member).flatMap_right _
  · rw [others, List.erase_of_not_mem member, idle member]
    exact .refl _

theorem objects_length_le (session : Session) : session.objects.length ≤ 1 := by
  cases session <;> simp [Session.objects]

theorem flatMap_length_le (names : List Name) :
    (names.flatMap fun name => (w.session name).objects).length ≤ names.length := by
  induction names with
  | nil => simp
  | cons name rest ih =>
    have one := objects_length_le (w.session name)
    simp only [List.flatMap_cons, List.length_append, List.length_cons]
    omega

theorem pins_others_le (w : Shared bufs) (name : Name) :
    (of (w.others name)).pins.length ≤ 2 * (w.busy.erase name).length :=
  (of_pins_length_le _).trans (Nat.mul_le_mul_left 2 (flatMap_length_le _))

theorem pins_le (w : Shared bufs) : (of w.objects).pins.length ≤ 2 * w.busy.length :=
  (of_pins_length_le _).trans (Nat.mul_le_mul_left 2 (flatMap_length_le _))

theorem object_of_invariant {session : Session} {live : RID → Option (List UInt8)} {h : HeapFile}
    (inv : Sessions.Invariant name ⟨st, session, live⟩) (member : h ∈ session.objects) :
    h.filePtr = name ∧ h.curPage = some h.curPageNo := by
  obtain ⟨_, f, hdr, chain, _, _, _, inSession⟩ := inv
  cases session with
  | idle => cases member
  | inserting h' =>
    obtain rfl := List.mem_singleton.mp member
    exact ⟨inSession.2.file, inSession.2.page.trans (congrArg some inSession.2.number.symm)⟩
  | scanning s =>
    obtain rfl := List.mem_singleton.mp member
    obtain ⟨_, _, _, progress⟩ := inSession
    obtain ⟨_, _, _, _, _, _, opened, _⟩ := progress.ahead
    exact ⟨opened.file, opened.page.trans (congrArg some opened.number.symm)⟩

theorem books_iff_returned {session : Session} {live : RID → Option (List UInt8)}
    {rest : List HeapFile} (inv : Sessions.Invariant name ⟨st, session, live⟩) :
    session.Books (.of rest) c ↔ Returned (.of (session.objects ++ rest)) c := by
  cases session with
  | idle => exact Iff.rfl
  | inserting h => exact holds_iff_returned (.inr
      (object_of_invariant inv (List.mem_singleton.mpr rfl)).2)
  | scanning s => exact holds_iff_returned (.inr
      (object_of_invariant inv (List.mem_singleton.mpr rfl)).2)

theorem session_set (w : Shared bufs) (e : Engine bufs) (t : FileUse) (name : Name) :
    (w.set name e t).session name = t.session := by
  simp [session, set]

theorem session_set_of_ne (w : Shared bufs) (e : Engine bufs) (t : FileUse) {other : Name}
    (apart : other ≠ name) :
    (w.set name e t).session other = w.session other := by
  simp [session, set, apart]

theorem objects_set (distinct : w.busy.Nodup) :
    (w.set name e t).objects = t.session.objects ++ w.others name := by
  have rest : (w.busy.erase name).flatMap (fun other => ((w.set name e t).session other).objects) =
      w.others name := by
    refine List.flatMap_congr fun other member => ?_
    rw [session_set_of_ne w e t fun same => distinct.not_mem_erase (same ▸ member)]
  have occupied : (w.set name e t).busy = occupied w.busy name t.session := rfl
  rw [objects, occupied]
  cases session : t.session with
  | idle => exact rest
  | inserting h =>
    rw [Shared.occupied, List.flatMap_cons, rest, session_set, session]
    simp
  | scanning s =>
    rw [Shared.occupied, List.flatMap_cons, rest, session_set, session]
    simp

/-- A file is what it was when only others have changed. -/
theorem elsewhere_invariant {other : Name} {session : Session} {live : RID → Option (List UInt8)}
    (inv : Sessions.Invariant other ⟨st, session, live⟩) (away : st.Elsewhere name st')
    (apart : other ≠ name) :
    Sessions.Invariant other ⟨st', session, live⟩ := by
  obtain ⟨named, f, hdr, chain, there, heap, lists, inSession⟩ := inv
  refine ⟨named, f, hdr, chain, (away.files other apart).trans there, heap, lists, ?_⟩
  have count : st'.openCnt other = st.openCnt other := away.openCnt other apart
  cases session with
  | idle => trivial
  | inserting h => exact ⟨count ▸ inSession.1, inSession.2⟩
  | scanning s => exact ⟨count ▸ inSession.1, inSession.2⟩

/-- The client of one file, with the objects on other files beside it. -/
theorem Invariant.client (inv : Invariant host w) (known : w.files name = some t) :
    ∃ st c, Client host name (.of (w.others name)) w.engine t st c ∧
      ∀ other t, w.files other = some t → Sessions.Invariant other ⟨st, t.session, t.live⟩ := by
  obtain ⟨st, c, rep, files, returned⟩ := inv.state
  have own := files name t known
  have split := returned_perm (objects_perm (inv.idle name)) returned
  rw [session_of known] at split
  exact ⟨st, c, ⟨rep, own, (books_iff_returned own).mpr split⟩, files⟩

theorem mem_busy (inv : Invariant host w) (known : w.files name = some t)
    (active : t.session ≠ .idle) : name ∈ w.busy := by
  by_contra absent
  exact active (session_of known ▸ inv.idle name absent)

theorem Invariant.set (inv : Invariant host w) (known : w.files name = some t)
    (files : ∀ other t, w.files other = some t → Sessions.Invariant other ⟨st, t.session, t.live⟩)
    (client : Client host name (.of (w.others name)) e t' st' c') (away : st.Elsewhere name st')
    (room : t.session = .idle → 2 * w.busy.length + 4 ≤ bufs) :
    Invariant host (w.set name e t') := by
  have shorter : (w.busy.erase name).length ≤ w.busy.length := List.erase_sublist.length_le
  have wide : 2 * ((w.busy.erase name).length + 1) + 2 ≤ bufs := by
    by_cases idle : t.session = .idle
    · have := room idle
      omega
    · have length := List.length_erase_of_mem (mem_busy inv known idle)
      have := List.length_pos_of_mem (mem_busy inv known idle)
      have := inv.room
      omega
  have unbusy : name ∉ w.busy.erase name := inv.distinct.not_mem_erase
  have busy : (w.set name e t').busy = occupied w.busy name t'.session := rfl
  refine ⟨?_, ?_, fun other absent => ?_, fun other u found => ?_, st', c', client.rep,
    fun other u found => ?_, ?_⟩
  · rw [busy]
    cases t'.session <;> simp only [occupied, List.length_cons] <;> omega
  · rw [busy]
    cases t'.session with
    | idle => exact inv.distinct.erase name
    | inserting => exact List.nodup_cons.mpr ⟨unbusy, inv.distinct.erase name⟩
    | scanning => exact List.nodup_cons.mpr ⟨unbusy, inv.distinct.erase name⟩
  · rw [busy] at absent
    by_cases same : other = name
    · subst same
      rw [session_set]
      cases session : t'.session with
      | idle => rfl
      | inserting => simp [session, occupied] at absent
      | scanning => simp [session, occupied] at absent
    · rw [session_set_of_ne w e t' same]
      refine inv.idle other fun member => absent ?_
      have kept : other ∈ w.busy.erase name := (List.mem_erase_of_ne same).mpr member
      cases t'.session with
      | idle => exact kept
      | inserting => exact List.mem_cons_of_mem _ kept
      | scanning => exact List.mem_cons_of_mem _ kept
  · by_cases same : other = name
    · exact same ▸ inv.plain name t known
    · exact inv.plain other u (by simpa [Shared.set, same] using found)
  · by_cases same : other = name
    · subst same
      obtain rfl : t' = u := by simpa [Shared.set] using found
      exact client.inv
    · exact elsewhere_invariant (files other u (by simpa [Shared.set, same] using found)) away same
  · rw [objects_set inv.distinct]
    exact (books_iff_returned client.inv).mp client.books

theorem Invariant.others_room (inv : Invariant host w) (name : Name) :
    (of (w.others name)).pins.length + 2 ≤ bufs := by
  have pins := pins_others_le w name
  have shorter : (w.busy.erase name).length ≤ w.busy.length := List.erase_sublist.length_le
  have := inv.room
  omega

theorem Invariant.active_room (inv : Invariant host w) (known : w.files name = some t)
    (active : t.session ≠ .idle) :
    (of (w.others name)).pins.length + 3 ≤ bufs := by
  have pins := pins_others_le w name
  have length := List.length_erase_of_mem (mem_busy inv known active)
  have := List.length_pos_of_mem (mem_busy inv known active)
  have := inv.room
  omega

/-- A call of one client leaves the files and objects of the others alone. -/
theorem Call.invariant {a : Sessions.Action} (inv : Invariant host w)
    (known : w.files name = some t) (room : t.session = .idle → 2 * w.busy.length + 4 ≤ bufs)
    (call : Call host name w.engine t a e t') :
    Invariant host (w.set name e t') := by
  obtain ⟨st, c, client, files⟩ := inv.client known
  have honest := of_honest (w.others name)
  have plain := inv.plain name t known
  cases call with
  | openInsert call =>
    obtain ⟨_, _, _, _, run, client', away⟩ := client.openInsert honest plain (inv.others_room name)
    cases Option.some.inj (call.symm.trans run)
    exact inv.set known files client' away room
  | insertRecord nonempty small call =>
    obtain ⟨_, _, _, _, _, run, _, client', away⟩ :=
      client.insertRecord honest (inv.active_room known (by simp)) nonempty small
    cases Option.some.inj (call.symm.trans run)
    exact inv.set known files client' away room
  | closeInsert call =>
    obtain ⟨_, _, _, run, client', away⟩ := client.closeInsert honest
    cases Option.some.inj (call.symm.trans run)
    exact inv.set known files client' away room
  | openScan call =>
    obtain ⟨_, _, _, _, run, client', away⟩ := client.openScan plain (inv.others_room name) _
    cases Option.some.inj (call.symm.trans run)
    exact inv.set known files client' away room
  | scanFound call =>
    obtain ⟨_, _, _, _, run, ⟨rfl, _, client'⟩ | ⟨rfl, client'⟩⟩ :=
      client.scanNext honest (inv.others_room name)
    all_goals cases call.unique run
    exact inv.set known files client' (.refl ..) room
  | scanEnded call =>
    obtain ⟨_, _, _, _, run, ⟨rfl, _, client'⟩ | ⟨rfl, client'⟩⟩ :=
      client.scanNext honest (inv.others_room name)
    all_goals cases call.unique run
    exact inv.set known files client' (.refl ..) room
  | deleteRecord standing call =>
    obtain ⟨_, _, _, _, run, client', away⟩ := client.deleteRecord standing
    cases Option.some.inj (call.symm.trans run)
    exact inv.set known files client' away room
  | closeScan call =>
    obtain ⟨_, _, _, run, client', away⟩ := client.closeScan honest
    cases Option.some.inj (call.symm.trans run)
    exact inv.set known files client' away room

/-- Each object is that of a session on its file. -/
theorem object_known (files : ∀ other t, w.files other = some t →
    Sessions.Invariant other ⟨st, t.session, t.live⟩) {h : HeapFile} (member : h ∈ w.objects) :
    ∃ t, w.files h.filePtr = some t ∧ t.session ≠ .idle := by
  obtain ⟨name, _, own⟩ := List.mem_flatMap.mp member
  cases found : w.files name with
  | none => simp [session, found, Session.objects] at own
  | some t =>
    rw [session_of found] at own
    obtain ⟨rfl, _⟩ := object_of_invariant (files name t found) own
    refine ⟨t, found, fun idle => ?_⟩
    simp [idle, Session.objects] at own

/-- Without an object on it a file is closed and none of its pages is pinned. -/
theorem closed_of_idle (rep : w.engine.Represents host (st, c.ledger))
    (returned : Returned (.of w.objects) c)
    (files : ∀ other t, w.files other = some t → Sessions.Invariant other ⟨st, t.session, t.live⟩)
    (idle : w.session name = .idle) : st.openCnt name = 0 ∧ ∀ p ∈ c.ledger.pins, p.1 ≠ name := by
  have apart : ∀ h ∈ w.objects, h.filePtr ≠ name := fun h member same => by
    obtain ⟨t, found, active⟩ := object_known files member
    exact active (session_of (same ▸ found) ▸ idle)
  constructor
  · have opens : c.ledger.opens = st.openCnt := rep.opens
    rw [← opens, returned.opens]
    refine List.countP_eq_zero.mpr fun h member => ?_
    simpa using apart h member
  · intro p pinned same
    obtain ⟨h, member, own⟩ := List.mem_flatMap.mp (returned.pins.mem_iff.mp pinned)
    exact apart h member ((HeapFile.file_of_mem_own own).symm.trans same)

/-- A file without an object comes or goes. -/
theorem Invariant.replace {use : Option FileUse} (inv : Invariant host w)
    (idle : w.session name = .idle)
    (files : ∀ other t, w.files other = some t → Sessions.Invariant other ⟨st, t.session, t.live⟩)
    (sound : ∀ t, use = some t → 0 ∉ name ∧ t.session = .idle ∧
      Sessions.Invariant name ⟨st', t.session, t.live⟩)
    (rep : e.Represents host (st', c'.ledger)) (away : st.Elsewhere name st')
    (returned : Returned (.of w.objects) c') :
    Invariant host ⟨e, update w.files name use, w.busy⟩ := by
  have same : ∀ other, session ⟨e, update w.files name use, w.busy⟩ other = w.session other :=
    fun other => by
    by_cases here : other = name
    · subst here
      rw [idle]
      cases use with
      | none => simp [session]
      | some t => simp [session, (sound t rfl).2.1]
    · simp [session, here]
  refine ⟨inv.room, inv.distinct, fun other absent => (same other).trans (inv.idle other absent),
    fun other t found => ?_, st', c', rep, fun other t found => ?_, ?_⟩
  · by_cases here : other = name
    · subst here
      exact (sound t (by simpa using found)).1
    · exact inv.plain other t (by simpa [here] using found)
  · by_cases here : other = name
    · subst here
      exact (sound t (by simpa using found)).2.2
    · exact elsewhere_invariant (files other t (by simpa [here] using found)) away here
  · simpa only [objects, same] using returned

theorem Invariant.create (inv : Invariant host w) (vacant : w.Vacant host name) :
    ∃ e, run host (createHeapFile name) w.engine = some (.ok, e) ∧
      Invariant host ⟨e, update w.files name (some ⟨.idle, fun _ => none⟩), w.busy⟩ := by
  obtain ⟨named, plain, unknown, absent, creatable⟩ := vacant
  obtain ⟨st, c, rep, files, returned⟩ := inv.state
  have idle : w.session name = .idle := by simp [session, unknown]
  obtain ⟨unopened, unpinned⟩ := closed_of_idle rep returned files idle
  have none : st.files name = none := by
    have stored := (rep.names.stored name plain unopened).isSome_eq
    simpa [absent] using stored
  have accepted : st.creatable name = true := by
    rw [show st.creatable = host.creatable from rep.names.creatable]
    exact creatable
  have pins : c.ledger.pins.length + 2 ≤ bufs := by
    have := pins_le w
    have := inv.room
    rw [returned.pins.length_eq]
    omega
  obtain ⟨_, e, ⟨st', g⟩, run, rep', rfl, first, second, third, rfl, gone⟩ :=
    (createHeapFile_served none unopened named plain accepted unpinned pins).run
      (implements host) rep
  refine ⟨e, run, inv.replace idle files (fun t new => ?_) rep' (.scratch third (.put ..))
    (returned.trans gone)⟩
  cases new
  refine ⟨plain, rfl, named, _, _, _, Flat.files_put .., grownFile_heap st first second third, ?_,
    trivial⟩
  rw [newFile_entries]
  exact .nil

theorem Invariant.destroy {live : RID → Option (List UInt8)} (inv : Invariant host w)
    (known : w.files name = some ⟨.idle, live⟩) :
    ∃ e, run host (destroyHeapFile name) w.engine = some (.ok, e) ∧
      Invariant host ⟨e, update w.files name none, w.busy⟩ := by
  obtain ⟨st, c, rep, files, returned⟩ := inv.state
  have idle : w.session name = .idle := session_of known
  obtain ⟨unopened, _⟩ := closed_of_idle rep returned files idle
  obtain ⟨named, f, _, _, found, _⟩ := files name _ known
  have there : st.files name = some f := found
  have answer : Flat.handle (.destroyFile name) st =
      some (.ok, { st with files := update st.files name none }) := by
    simp [Flat.handle, named, unopened, there]
  have served : (destroyHeapFile name).Served (Flat.service bufs) (st, c.ledger) fun status s =>
      status = .ok ∧ s.1 = { st with files := update st.files name none } ∧ s.2 = c.ledger :=
    Flat.served_quiet (.destroyFile name) rfl (inv.plain name _ known) trivial answer ⟨rfl, rfl, rfl⟩
  obtain ⟨_, e, ⟨st', g⟩, run, rep', rfl, rfl, rfl⟩ := served.run (implements host) rep
  refine ⟨e, run, inv.replace idle files (fun t new => by cases new) rep'
    ⟨fun other apart => ?_, fun _ _ => rfl⟩ returned⟩
  exact update_of_ne apart ..

theorem Invariant.lookup {rid : RID} {b : List UInt8} (inv : Invariant host w)
    (known : w.files name = some t) (bound : t.live rid = some b) :
    ∃ h e₁ h' e₂ e₃, run host (HeapFile.new name) w.engine = some (.ok h, e₁) ∧
      run host (h.getRecord rid) e₁ = some ((.ok b, h'), e₂) ∧
        run host h'.delete e₂ = some ((), e₃) ∧
      Invariant host ⟨e₃, w.files, w.busy⟩ := by
  obtain ⟨st, c, rep, files, returned⟩ := inv.state
  have room : (of w.objects).pins.length + 2 ≤ bufs := by
    have := pins_le w
    have := inv.room
    omega
  obtain ⟨h, e₁, h', e₂, e₃, c', new, get, delete, rep', returned'⟩ :=
    rep.lookup (files name t known) returned (of_honest _) (inv.plain name t known) room bound
  exact ⟨h, e₁, h', e₂, e₃, new, get, delete, inv.room, inv.distinct, inv.idle, inv.plain, st, c',
    rep', files, returned'⟩

theorem Invariant.restart [NeZero bufs] (inv : Invariant host w) (quiet : w.busy = []) :
    Invariant host ⟨.start bufs w.engine.directory, w.files, []⟩ := by
  obtain ⟨st, c, rep, files, returned⟩ := inv.state
  have gone : w.objects = [] := by simp [objects, quiet]
  have closed : ∀ name, st.openCnt name = 0 := fun name => by
    have opens : c.ledger.opens = st.openCnt := rep.opens
    rw [← opens, returned.opens, gone]
    rfl
  refine ⟨?_, List.nodup_nil, fun name _ => inv.idle name (by simp [quiet]), inv.plain, st,
    ⟨.empty, false, false⟩, rep.restart closed, files, ?_⟩
  · have := inv.room
    simp only [List.length_nil]
    omega
  · change Returned (of []) _
    rw [of_nil]
    exact ⟨rfl, rfl, .refl _, fun _ owed => owed⟩

end parts

/-- What a scan has returned, and what it and its client get next. -/
structure ScanServes (host : Host) (e : Engine bufs) (s : ScanSession)
    (live : RID → Option (List UInt8)) : Prop where
  distinct : s.returned.Nodup
  sound : ∀ rid ∈ s.returned, ∃ b, s.start rid = some b ∧ s.scan.matchRec b = true
  complete : s.ended = true → ∀ rid b, s.start rid = some b → s.scan.matchRec b = true →
    rid ∈ s.returned
  next : ∃ status t e', Returns (handle host) (HeapFileScan.scanNext · s.scan) e
    ((status, t), e') ∧ (status = .ok ∧ s.ended = false ∨ status = .fileEof)
  standing : s.standing = true → ∃ b e₁ t e₂, live s.scan.curRec = some b ∧
    run host s.scan.getRecord e = some (.ok b, e₁) ∧ run host s.scan.deleteRecord e =
      some ((.ok, t), e₂)
  close : ∃ e', run host s.scan.delete e = some ((), e')

/-- Every file is served as the map of its records. -/
structure Serves (host : Host) (w : Shared bufs) : Prop where
  create : ∀ name, w.Vacant host name → ∃ e, run host (createHeapFile name) w.engine =
    some (.ok, e)
  lookup : ∀ name t rid b, w.files name = some t → t.live rid = some b →
    ∃ h e₁ h' e₂ e₃, run host (HeapFile.new name) w.engine = some (.ok h, e₁) ∧
      run host (h.getRecord rid) e₁ = some ((.ok b, h'), e₂) ∧
        run host h'.delete e₂ = some ((), e₃)
  idle : ∀ name live, w.files name = some ⟨.idle, live⟩ →
    (∃ h e, run host (InsertFileScan.new name) w.engine = some (.ok h, e)) ∧
    (∃ s e, run host (HeapFileScan.new name) w.engine = some (.ok s, e)) ∧
    ∃ e, run host (destroyHeapFile name) w.engine = some (.ok, e)
  insertRecord : ∀ name h live, w.files name = some ⟨.inserting h, live⟩ →
    (∀ bytes, 0 < bytes.length → bytes.length ≤ 1000 → ∃ rid h' e,
      run host (InsertFileScan.insertRecord h (.ofBytes bytes)) w.engine =
        some ((.ok rid, h'), e) ∧ live rid = none) ∧
    ∃ e, run host (InsertFileScan.delete h) w.engine = some ((), e)
  scan : ∀ name s live, w.files name = some ⟨.scanning s, live⟩ → ScanServes host w.engine s live

section runs
variable {host : Host} {w w' : Shared bufs}

theorem Invariant.serves (inv : Invariant host w) : Serves host w := by
  refine ⟨fun name vacant => ?_, fun name t rid b known bound => ?_, fun name live known => ?_,
    fun name h live known => ?_, fun name s live known => ?_⟩
  · obtain ⟨e, run, _⟩ := inv.create vacant
    exact ⟨e, run⟩
  · obtain ⟨h, e₁, h', e₂, e₃, new, get, delete, _⟩ := inv.lookup known bound
    exact ⟨h, e₁, h', e₂, e₃, new, get, delete⟩
  · obtain ⟨st, c, client, _⟩ := inv.client known
    have plain := inv.plain name _ known
    obtain ⟨h, e₁, _, _, insert, _⟩ :=
      client.openInsert (of_honest _) plain (inv.others_room name)
    obtain ⟨s, e₂, _, _, scan, _⟩ := client.openScan plain (inv.others_room name) none
    obtain ⟨e₃, destroy, _⟩ := inv.destroy known
    exact ⟨⟨h, e₁, insert⟩, ⟨s, e₂, scan⟩, e₃, destroy⟩
  · obtain ⟨st, c, client, _⟩ := inv.client known
    refine ⟨fun bytes nonempty small => ?_, ?_⟩
    · obtain ⟨rid, h', e, _, _, run, fresh, _⟩ :=
        client.insertRecord (of_honest _) (inv.active_room known (by simp)) nonempty small
      exact ⟨rid, h', e, run, fresh⟩
    · obtain ⟨e, _, _, run, _⟩ := client.closeInsert (of_honest _)
      exact ⟨e, run⟩
  · obtain ⟨st, c, client, _⟩ := inv.client known
    have refines := client.inv.refines.scan s rfl
    refine ⟨refines.distinct, refines.sound, refines.complete, ?_, fun standing => ?_, ?_⟩
    · obtain ⟨status, t, e, _, run, result⟩ :=
        client.scanNext (of_honest _) (inv.others_room name)
      exact ⟨status, t, e, run, result.imp (fun found => ⟨found.1, found.2.1⟩) (·.1)⟩
    · obtain ⟨b, e₁, _, bound, get, _⟩ := client.current standing
      obtain ⟨t, e₂, _, _, delete, _⟩ := client.deleteRecord standing
      exact ⟨b, e₁, t, e₂, bound, get, delete⟩
    · obtain ⟨e, _, _, run, _⟩ := client.closeScan (of_honest _)
      exact ⟨e, run⟩

variable [NeZero bufs]

theorem Started.invariant (started : Started w) : Invariant host w := by
  obtain ⟨frames, directory, stored, rfl⟩ := started
  choose! files stored using stored
  refine ⟨by simpa using frames, List.nodup_nil, fun _ _ => rfl, fun name t known => (by cases known),
    ⟨files, fun _ => 0, host.creatable, .blank⟩, ⟨.empty, false, false⟩,
    start_represents host stored (fun _ => rfl) rfl,
    fun name t known => (by cases known), ?_⟩
  change Returned (of []) _
  rw [of_nil]
  exact ⟨rfl, rfl, .refl _, fun _ owed => owed⟩

/-- The clients take turns in any order. -/
theorem Step.invariant {a : Event} (inv : Invariant host w) (step : Step host w a w') :
    Invariant host w' := by
  cases step with
  | create vacant call =>
    obtain ⟨_, run, inv'⟩ := inv.create vacant
    cases Option.some.inj (call.symm.trans run)
    exact inv'
  | client known room call => exact call.invariant inv known room
  | lookup known live new get delete =>
    obtain ⟨b, bound⟩ := Option.ne_none_iff_exists'.mp live
    obtain ⟨_, _, _, _, _, new', get', delete', inv'⟩ := inv.lookup known bound
    cases Option.some.inj (new.symm.trans new')
    cases Option.some.inj (get.symm.trans get')
    cases Option.some.inj (delete.symm.trans delete')
    exact inv'
  | destroy known call =>
    obtain ⟨_, run, inv'⟩ := inv.destroy known
    cases Option.some.inj (call.symm.trans run)
    exact inv'
  | restart quiet => exact inv.restart quiet

/-- Clients that share the engine, and the processes they run in one after the
other, find the records they have inserted and not deleted, and no others. -/
theorem engine_serves_maps (reached : Reachable Started (Step host) w) : Serves host w :=
  (reached.invariant (fun _ => Started.invariant) (fun _ _ _ inv step => step.invariant inv)).serves

/-- In four frames a file is created and a record inserted. -/
theorem engine_serves_maps_inserted :
    ∃ (w : Shared 4) (h : HeapFile) (live : RID → Option (List UInt8)),
      w.files [97] = some ⟨.inserting h, live⟩ ∧ (∃ rid, live rid = some [7, 7]) ∧
        Serves .any w := by
  have start : Reachable Started (Step .any) (⟨.start 4 fun _ => none, fun _ => none, []⟩ : Shared 4) :=
    .initial ⟨by decide, _, fun _ _ => ⟨none, .absent⟩, rfl⟩
  have vacant : Vacant .any (⟨.start 4 fun _ => none, fun _ => none, []⟩ : Shared 4) [97] :=
    ⟨by simp, by simp, rfl, rfl, rfl⟩
  obtain ⟨e, create⟩ := (engine_serves_maps start).create [97] vacant
  have created := Reachable.next start (.create vacant create)
  obtain ⟨⟨h, e₁, new⟩, _⟩ := (engine_serves_maps created).idle [97] (fun _ => none) (by simp)
  have opened := Reachable.next created
    (.client (t := ⟨.idle, fun _ => none⟩) (by simp) (fun _ => Nat.le_refl _) (.openInsert new))
  obtain ⟨insert, _⟩ := (engine_serves_maps opened).insertRecord [97] h (fun _ => none) (by simp [set])
  obtain ⟨rid, h', e₂, call, _⟩ := insert [7, 7] (by decide) (by decide)
  have inserted : Reachable Started (Step .any)
      (set _ [97] e₂ ⟨.inserting h', update (fun _ => none) rid (some [7, 7])⟩) := .next opened
    (.client (t := ⟨.inserting h, fun _ => none⟩) (by simp [set]) (fun idle => by cases idle)
      (.insertRecord (by decide) (by decide) call))
  exact ⟨_, h', update (fun _ => none) rid (some [7, 7]), by simp [set], ⟨rid, update_self ..⟩,
    engine_serves_maps inserted⟩

end runs
end Shared
end Minirel
