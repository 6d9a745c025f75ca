import Guildhall.Proofs.Permission.Shape

/-!
# Files that are not loaded

A file may hold a text that cannot be read, a document that is no mapping, or one that is refused
somewhere on the way through its sections. As long as it is there, every operation of a store that
would have to load it fails, and neither the store nor the file changes. When the file has been
replaced by one that can be loaded, the store goes by that one.

What an operation fails with is a failure of the store, but for texts with a word that its tag makes
a truth value or a number that it is not: some of these fail in ways that no store foresees.
-/

namespace Guildhall.Permission

variable {α β : Type}

inductive Foreseen : Failure → Prop
  | invalidValue (message : String) : Foreseen (.invalidValue message)
  | wrongShape : Foreseen .wrongShape
  | wrongType : Foreseen .wrongType

/-- A step of reading that fails with nothing else. -/
def Tame (x : Except Failure α) : Prop := ∀ failure, x = .error failure → Foreseen failure

theorem tame_ok (a : α) : Tame (.ok a) := nofun

theorem Foreseen.tame {failure : Failure} (h : Foreseen failure) :
    Tame (.error failure : Except Failure α) := by
  intro other heq
  cases heq
  exact h

theorem Tame.bind {x : Except Failure α} {f : α → Except Failure β} (hx : Tame x)
    (hf : ∀ a, Tame (f a)) : Tame (x >>= f) := by
  cases x with
  | error failure => exact (hx failure rfl).tame
  | ok a => exact hf a

theorem Tame.mapM {f : α → Except Failure β} (hf : ∀ a, Tame (f a)) (items : List α) :
    Tame (items.mapM f) := by
  induction items with
  | nil => exact tame_ok _
  | cons a rest ih =>
    rw [List.mapM_cons]
    apply (hf a).bind
    intro b
    exact ih.bind fun more => tame_ok _

theorem Tame.readEntries {read : Value → Except Failure α} (hread : ∀ v, Tame (read v))
    (entries : List (Scalar × Value)) (done : List (String × α)) :
    Tame (readEntries read entries done) := by
  induction entries generalizing done with
  | nil => exact tame_ok _
  | cons entry rest ih => exact (hread entry.2).bind fun item => ih _

theorem tame_sectionEntries (v : Option Value) : Tame (sectionEntries v) := by
  unfold sectionEntries
  split
  · exact tame_ok _
  · split
    · exact tame_ok _
    · split
      · exact tame_ok _
      · exact Foreseen.wrongShape.tame

theorem tame_listItems (v : Option Value) : Tame (listItems v) := by
  unfold listItems
  split
  · exact tame_ok _
  · split
    · exact tame_ok _
    · split
      case h_4 => exact Foreseen.wrongType.tame
      all_goals exact tame_ok _

theorem tame_readNode (v : Value) : Tame (readNode v) := by
  unfold readNode
  split
  · split
    · exact tame_ok _
    · exact (Foreseen.invalidValue _).tame
  · exact Foreseen.wrongShape.tame

theorem tame_readNodes (v : Option Value) : Tame (readNodes v) :=
  (tame_listItems v).bind (.mapM tame_readNode)

theorem tame_readOverride (v : Value) : Tame (readOverride v) := by
  apply (tame_sectionEntries _).bind
  intro lists
  apply (tame_readNodes _).bind
  intro allowed
  exact (tame_readNodes _).bind fun denied => tame_ok _

theorem tame_readGuild (v : Value) : Tame (readGuild v) := by
  apply (tame_sectionEntries _).bind
  intro parts
  apply (tame_sectionEntries _).bind
  intro roles
  rw [readRoles_eq]
  apply (Tame.readEntries (fun v => (tame_readNodes _).bind fun _ => tame_ok _) _ _).bind
  intro grants
  apply (tame_sectionEntries _).bind
  intro members
  rw [readMembers_eq]
  apply (Tame.readEntries (fun v => (tame_listItems _).bind fun _ => tame_ok _) _ _).bind
  intro names
  apply (tame_sectionEntries _).bind
  intro overrides
  rw [readOverrideSection_eq]
  exact (Tame.readEntries tame_readOverride _ _).bind fun decisions => tame_ok _

theorem tame_ofValue (document : Value) : Tame (Store.ofValue document) := by
  unfold Store.ofValue
  split
  · apply (tame_sectionEntries _).bind
    intro guilds
    rw [readGuilds_eq]
    exact (Tame.readEntries tame_readGuild _ _).bind fun records => tame_ok _
  · exact Foreseen.wrongShape.tame

/-- A text that a store does not load: it cannot be read, something else than a mapping is at its
top, or its document is refused. -/
inductive Rejected (text : String) : Prop
  | unreadable {fault : Yaml.Fault} (h : Yaml.parse (Text.plainLines text.toList) = .error fault)
  | misshapen {v : Value} (h : documentOf? text = some v) (hshape : ∀ entries, v ≠ .map entries)
  | refused {entries : List (Scalar × Value)} {failure : Failure}
      (h : documentOf? text = some (.map entries))
      (hrefused : Store.ofValue (.map entries) = .error failure)

theorem ofText_misshapen {text : String} {v : Value} (hdocument : documentOf? text = some v)
    (hshape : ∀ entries, v ≠ .map entries) (path : String) :
    Store.ofText path text = .error (.store s!"{path}: top level must be a mapping" none) := by
  unfold documentOf? at hdocument
  cases hparse : Yaml.parse (Text.plainLines text.toList) with
  | error fault => simp [hparse] at hdocument
  | ok raw =>
    rw [hparse, Option.some.injEq] at hdocument
    unfold Store.ofText
    simp only [hparse, hdocument]

/-- What a store fails with that does not load a text: a failure of its own, unless reading the text
has ended with a slip, whose failure is passed on. -/
def Reported (text : String) (failure : Failure) : Prop :=
  match Yaml.parse (Text.plainLines text.toList) with
  | .error (.unforeseen slip) => failure = slip.failure
  | _ => ∃ message cause, failure = .store message cause

theorem reported_of_document {text : String} {v : Value} (hdocument : documentOf? text = some v)
    {failure : Failure} :
    Reported text failure ↔ ∃ message cause, failure = .store message cause := by
  unfold documentOf? at hdocument
  cases hparse : Yaml.parse (Text.plainLines text.toList) with
  | error fault => simp [hparse] at hdocument
  | ok raw => simp only [Reported, hparse]

theorem Rejected.exists_ofText {text : String} (h : Rejected text) (path : String) :
    ∃ failure, Store.ofText path text = .error failure ∧ Reported text failure := by
  cases h with
  | @unreadable fault hparse =>
    cases fault with
    | known fault =>
      refine ⟨loadFailure path (faultDetail fault) fault, ?_, ?_⟩
      · unfold Store.ofText
        simp only [hparse]
      · simp only [Reported, hparse]
        exact ⟨_, _, rfl⟩
    | unforeseen slip =>
      refine ⟨slip.failure, ?_, ?_⟩
      · unfold Store.ofText
        simp only [hparse]
      · simp only [Reported, hparse]
  | misshapen hdocument hshape =>
    exact ⟨_, ofText_misshapen hdocument hshape path,
      (reported_of_document hdocument).mpr ⟨_, _, rfl⟩⟩
  | refused hdocument hrefused =>
    obtain ⟨detail, fault, hfailure⟩ := Store.exists_documentFailure path _
    exact ⟨_, Store.ofText_refused hdocument hrefused,
      (reported_of_document hdocument).mpr ⟨_, _, hfailure⟩⟩

theorem exists_ofText_iff (path text : String) :
    (∃ s, Store.ofText path text = .ok s) ↔ ¬ Rejected text := by
  constructor
  · rintro ⟨s, hs⟩ hrejected
    obtain ⟨failure, hfailure, -⟩ := hrejected.exists_ofText path
    rw [hs] at hfailure
    cases hfailure
  · intro hrejected
    cases hparse : Yaml.parse (Text.plainLines text.toList) with
    | error fault => exact absurd (.unreadable hparse) hrejected
    | ok raw =>
      have hdocument : documentOf? text = some (if raw.isTrue then raw else .map []) := by
        rw [documentOf?, hparse]
      by_cases hshape : ∃ entries, (if raw.isTrue then raw else .map []) = .map entries
      · obtain ⟨entries, hentries⟩ := hshape
        rw [hentries] at hdocument
        cases hvalue : Store.ofValue (.map entries) with
        | error failure => exact absurd (.refused hdocument hvalue) hrejected
        | ok s => exact ⟨s, ofText_of_document hdocument hvalue path⟩
      · exact absurd (.misshapen hdocument fun entries heq => hshape ⟨entries, heq⟩) hrejected

inductive Request.Reads : Request → Prop
  | memberRoles (guild user : String) : Reads (.memberRoles guild user)
  | rolePermissions (guild role : String) : Reads (.rolePermissions guild role)
  | overrides (guild user : String) : Reads (.overrides guild user)

theorem Request.Reads.elementary {request : Request} (h : request.Reads) : request.Elementary := by
  cases h with
  | memberRoles guild user => exact .memberRoles guild user
  | rolePermissions guild role => exact .rolePermissions guild role
  | overrides guild user => exact .overrides guild user

theorem Request.Reads.ne_change {request : Request} (h : request.Reads) (w : Write) :
    request ≠ .change w := by
  cases h <;> simp

/-- An operation of a store; a change has a well-formed identifier, if any. -/
def Request.Operation (request : Request) : Prop :=
  request.Elementary ∧ ∀ w, request = .change w → ∃ changed, w.canonical = .ok changed

theorem Request.Reads.operation {request : Request} (h : request.Reads) : request.Operation :=
  ⟨h.elementary, fun w heq => absurd heq (h.ne_change w)⟩

namespace FileStore

variable {f g : FileStore} {d : Disk} {text : String} {failure : Failure}

/-- All reads, one after the other, are answered as a store in memory does. -/
def Serves (f : FileStore) (d : Disk) (s : Store) : Prop :=
  ∀ requests : List Request, (∀ request ∈ requests, request.Reads) →
    (Shared.answersOf (fun s request => Access.file.ask request s) (f, d) requests).1 =
      requests.map fun request => (Access.memory.ask request s).1

theorem serves_of_refresh (hrefresh : f.refresh d = .ok g) : f.Serves d g.store := by
  intro requests hreads
  induction requests generalizing f with
  | nil => rfl
  | cons request rest ih =>
    rw [List.forall_mem_cons] at hreads
    obtain ⟨hread, hrest⟩ := hreads
    rw [Shared.answersOf, ask_read hread.elementary hread.ne_change hrefresh]
    simp only [ih (refresh_settled hrefresh g.store) hrest, List.map_cons]

theorem refresh_eq_error (hfile : d.content = .file text) (hnew : f.seen ≠ some d.stamp)
    (htext : Store.ofText f.path text = .error failure) : f.refresh d = .error failure := by
  simp only [refresh, hfile, if_neg hnew, htext, bind, Except.bind]

theorem refresh_of_rejected (hfile : d.content = .file text) (hnew : f.seen ≠ some d.stamp)
    (hrejected : Rejected text) :
    ∃ failure, f.refresh d = .error failure ∧ Reported text failure := by
  obtain ⟨failure, htext, hreported⟩ := hrejected.exists_ofText f.path
  exact ⟨failure, refresh_eq_error hfile hnew htext, hreported⟩

theorem refresh_of_document {document : Value} {s : Store} (hfile : d.content = .file text)
    (hnew : f.seen ≠ some d.stamp) (hdocument : documentOf? text = some document)
    (hs : Store.ofValue document = .ok s) :
    f.refresh d = .ok { f with store := s, seen := some d.stamp } := by
  simp only [refresh, hfile, if_neg hnew, ofText_of_document hdocument hs, bind, Except.bind, pure,
    Except.pure]

/-- An operation that begins with a look at the file ends with it, when it fails. -/
theorem ask_of_unloaded (hrefresh : f.refresh d = .error failure) {request : Request}
    (hoperation : request.Operation) :
    Access.file.ask request (f, d) = (.error failure, (f, d)) := by
  obtain ⟨helementary, hnamed⟩ := hoperation
  cases helementary with
  | change w =>
    obtain ⟨changed, hw⟩ := hnamed w rfl
    simp only [Access.ask, Access.file, write, hw, hrefresh, answered, id_eq]
  | _ => simp only [Access.ask, Access.file, source, read, hrefresh, answered, id_eq]

theorem answersOf_of_unloaded (hrefresh : f.refresh d = .error failure) {requests : List Request}
    (hoperations : ∀ request ∈ requests, request.Operation) :
    Shared.answersOf (fun s request => Access.file.ask request s) (f, d) requests =
      (requests.map fun _ => .error failure, (f, d)) := by
  induction requests with
  | nil => rfl
  | cons request rest ih =>
    rw [List.forall_mem_cons] at hoperations
    rw [Shared.answersOf, ask_of_unloaded hrefresh hoperations.1]
    simp only [ih hoperations.2, List.map_cons]

/-- While a file is there that is not loaded, all operations fail alike and change nothing: neither
what the store has in memory nor the time stamp that it has seen nor the file. They fail with a
failure of the store, whatever its document is, unless reading its text has ended with a slip, whose
failure is passed on. As soon as the file has been replaced by one that can be loaded, the store
answers from that one. -/
theorem rejected_file_changes_nothing (hfile : d.content = .file text)
    (hnew : f.seen ≠ some d.stamp) (hrejected : Rejected text) :
    (∀ document failure, Store.ofValue document = .error failure → Foreseen failure) ∧
      (∃ failure, Reported text failure ∧
        ∀ requests : List Request, (∀ request ∈ requests, request.Operation) →
          Shared.answersOf (fun s request => Access.file.ask request s) (f, d) requests =
            (requests.map fun _ => .error failure, (f, d))) ∧
      ∀ (later : Disk) (text : String) (document : Value) (s : Store), later.content = .file text →
        f.seen ≠ some later.stamp → documentOf? text = some document →
        Store.ofValue document = .ok s → f.Serves later s := by
  refine ⟨tame_ofValue, ?_, ?_⟩
  · obtain ⟨failure, hrefresh, hreported⟩ := refresh_of_rejected hfile hnew hrejected
    exact ⟨failure, hreported, fun requests => answersOf_of_unloaded hrefresh⟩
  · intro later text document s hlater hstamp hdocument hs
    have hrefresh := refresh_of_document hlater hstamp hdocument hs
    have hserves := serves_of_refresh hrefresh
    exact hserves

/-- A role has been read when the number comes that passes for no list. Neither a change nor a read
gets past it, until the operator has replaced the file. -/
theorem broken_in_the_middle :
    let broken := "guilds:\n  '1':\n    roles:\n      mod: [kick]\n    members:\n      '42': 5\n"
    let mended := "guilds:\n  '1':\n    members:\n      '42': [mod]\n"
    let f : FileStore := ⟨"p.yaml", ⟨[("1", ⟨[("mod", ["ban"])], [], []⟩)]⟩, some 1⟩
    let d := (Disk.empty.put .absent).put (.file broken)
    let requests : List Request :=
      [.change (.grantRole "1" "mod" "Warn"), .rolePermissions "1" "mod", .memberRoles "1" "42"]
    (∃ message cause,
        Shared.answersOf (fun s request => Access.file.ask request s) (f, d) requests =
          ([.error (.store message cause), .error (.store message cause),
            .error (.store message cause)], (f, d))) ∧
      (Access.file.ask (.memberRoles "1" "42") (f, d.put (.file mended))).1 =
        .ok (.texts ["mod"]) := by
  intro broken mended f d requests
  have hrefused : (documentOf? broken).map Store.ofValue = some (.error .wrongType) := by
    decide +kernel
  have hmended : (documentOf? mended).map Store.ofValue =
      some (.ok ⟨[("1", ⟨[], [("42", ["mod"])], []⟩)]⟩) := by decide +kernel
  have hwarn : Write.canonical (.grantRole "1" "mod" "Warn") =
      .ok (.grantRole "1" "mod" "warn") := by decide +kernel
  obtain ⟨document, hdocument, hvalue⟩ := Option.map_eq_some_iff.mp hrefused
  obtain ⟨later, hlater, hloaded⟩ := Option.map_eq_some_iff.mp hmended
  have hrejected : Rejected broken := by
    cases document with
    | map entries => exact .refused hdocument hvalue
    | list items => cases hvalue
    | atom s => cases hvalue
  obtain ⟨-, ⟨failure, hreported, hunchanged⟩, hserved⟩ :=
    rejected_file_changes_nothing (f := f) (d := d) rfl (by decide) hrejected
  obtain ⟨message, cause, rfl⟩ := (reported_of_document hdocument).mp hreported
  have hoperations : ∀ request ∈ requests, request.Operation := by
    simp only [requests, List.forall_mem_cons]
    refine ⟨⟨.change _, ?_⟩, Request.Reads.operation (.rolePermissions _ _),
      Request.Reads.operation (.memberRoles _ _), by simp⟩
    rintro w ⟨⟩
    exact ⟨_, hwarn⟩
  refine ⟨⟨message, cause, hunchanged requests hoperations⟩, ?_⟩
  have hread := hserved (d.put (.file mended)) mended later _ rfl (by decide) hlater hloaded
    [.memberRoles "1" "42"] (List.forall_mem_singleton.mpr (.memberRoles "1" "42"))
  simpa [Shared.answersOf, Access.ask, Access.memory, Source.memory, answered, Store.memberRoles,
    Store.guild, sortTexts] using hread

/-- A word is said to be a truth value and is none. A store that is asked for permissions then does
not fail with a failure of its own, though nothing changes. -/
theorem unknown_truth_value_escapes :
    let text := "guilds: !!bool maybe\n"
    let f : FileStore := ⟨"p.yaml", ⟨[("1", ⟨[("mod", ["kick"])], [], []⟩)]⟩, some 1⟩
    let d := (Disk.empty.put .absent).put (.file text)
    let ended := Access.file.ask (.rolePermissions "1" "mod") (f, d)
    Rejected text ∧ f.seen ≠ some d.stamp ∧ ended = (.error (.missingKey "maybe"), (f, d)) ∧
      ∀ message cause, ended.1 ≠ .error (.store message cause) := by
  intro text f d ended
  have htext : Store.ofText f.path text = .error (.missingKey "maybe") := by decide +kernel
  have hnew : f.seen ≠ some d.stamp := by decide
  have hrejected : Rejected text := by
    by_contra hloaded
    obtain ⟨s, hs⟩ := (exists_ofText_iff f.path text).mpr hloaded
    rw [htext] at hs
    cases hs
  have hread : Request.Reads (.rolePermissions "1" "mod") := .rolePermissions "1" "mod"
  have hask : ended = (.error (.missingKey "maybe"), (f, d)) :=
    ask_of_unloaded (refresh_eq_error rfl hnew htext) hread.operation
  refine ⟨hrejected, hnew, hask, ?_⟩
  intro message cause hstore
  rw [hask] at hstore
  cases hstore

end FileStore

end Guildhall.Permission
