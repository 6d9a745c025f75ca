import Guildhall.Feature.Permissions
import Guildhall.Proofs.Dispatch.Gate
import Guildhall.Proofs.Permission.Document

/-!
# Denials stand

What the permission commands write to the store, and that a denied identifier stays denied until
that very decision is lifted.
-/

namespace Guildhall

open Permission (Access Node Source Store Write)

/-- Whether a change takes back a denial of an identifier: it allows the member just this one, or
clears the decision on it. -/
def Permission.Write.Lifts (guild user : String) (n : Node) (w : Write) : Prop :=
  w.overrideFor guild user n = some (some true) ∨ w.overrideFor guild user n = some none

instance (guild user : String) (n : Node) (w : Write) : Decidable (w.Lifts guild user n) :=
  inferInstanceAs (Decidable (_ ∨ _))

namespace Feature

open Dispatch (Cache Call Context Dispatcher Script)

variable {σ : Type}

inductive Order
  | allow
  | deny
  | reset
  | grant
  | ungrant
  | roles
  deriving DecidableEq, Repr

namespace Order

def script (access : Access σ) : Order → Context → Script σ
  | allow => overridePermissions access true
  | deny => overridePermissions access false
  | reset => resetPermissions access
  | grant => grantPermissions access
  | ungrant => ungrantPermissions access
  | roles => setRoles access

/-- The changes that a command stands for; none where its arguments are malformed. -/
def writes (order : Order) (ctx : Context) : List Write :=
  match ctx.args with
  | [] => []
  | target :: rest =>
    let each (write : String → Write) : List Write :=
      match readIdentifiers rest with
      | .ok nodes => nodes.map write
      | .error _ => []
    match order with
    | allow => each fun node => .setOverride (guildOf ctx) (memberId target) node true
    | deny => each fun node => .setOverride (guildOf ctx) (memberId target) node false
    | reset => each fun node => .clearOverride (guildOf ctx) (memberId target) node
    | grant => each fun node => .grantRole (guildOf ctx) (roleId target) node
    | ungrant => each fun node => .revokeRole (guildOf ctx) (roleId target) node
    | roles =>
      [.setMemberRoles (guildOf ctx) (memberId target) (Permission.distinct (rest.map roleId))]

end Order

theorem executors_permissionEntries (access : Access σ) :
    (permissionEntries access).map (fun entry => entry.2.executor) =
      [none, some (.custom (showPermissions access))] ++
        [Order.allow, .deny, .reset, .grant, .ungrant, .roles].map fun order =>
          some (.custom (order.script access)) := rfl

theorem change_memory {w changed : Write} (h : w.canonical = .ok changed) (s : Store) :
    Access.memory.change w s = (.ok (s.apply changed).2, s.after w) := by
  rw [Store.after_of_canonical h]
  simp [Access.memory, Store.write, h, bind, Except.bind, pure, Except.pure]

theorem change_memory_snd (w : Write) (s : Store) : (Access.memory.change w s).2 = s.after w := by
  cases h : w.canonical with
  | error fault =>
    rw [Store.after_of_malformed h]
    simp [Access.memory, Store.write, h, bind, Except.bind]
  | ok changed => rw [change_memory h]

theorem readIdentifiers_ok {tokens nodes : List String} (h : readIdentifiers tokens = .ok nodes) :
    ∃ parsed, Permission.parseAll tokens = .ok parsed ∧ nodes = parsed.map (·.value) := by
  unfold readIdentifiers at h
  split at h
  · cases h
  · split at h
    case h_1 parsed hparsed =>
      cases h
      exact ⟨parsed, hparsed, rfl⟩
    case h_2 => cases h

/-- Whether the words of a command are no use: nobody is named, or no identifier, or one that is
malformed. -/
inductive Malformed : List String → Prop
  | nobody : Malformed []
  | nothing (target : String) : Malformed [target]
  | identifier {target text : String} {texts : List String} (text_mem : text ∈ texts)
      (unreadable : ∀ n, Node.parse text ≠ .ok n) : Malformed (target :: texts)

structure Names (words : List String) (target : String) (nodes : List Node) : Prop where
  read : ∃ texts, words = target :: texts ∧
    List.Forall₂ (fun text n => Node.parse text = .ok n) texts nodes
  some : nodes ≠ []

theorem Names.canonical {words : List String} {target : String} {nodes : List Node}
    (h : Names words target nodes) : ∀ n ∈ nodes, n.Canonical := by
  obtain ⟨texts, -, hread⟩ := h.read
  intro n hn
  obtain ⟨text, -, htext⟩ :=
    (Permission.mem_of_parseAll (Permission.parseAll_eq_ok.mpr hread)).mp hn
  exact Node.canonical_of_parse htext

theorem Names.exists_readIdentifiers {words : List String} {target : String} {nodes : List Node}
    (h : Names words target nodes) :
    ∃ texts, words = target :: texts ∧ readIdentifiers texts = .ok (nodes.map (·.value)) := by
  obtain ⟨texts, hwords, hread⟩ := h.read
  refine ⟨texts, hwords, ?_⟩
  cases hread with
  | nil => exact absurd rfl h.some
  | cons hfirst hrest =>
    have hparse := Permission.parseAll_eq_ok.mpr (.cons hfirst hrest)
    simp [readIdentifiers, hparse]

theorem readIdentifiers_refused {texts : List String} {text : String} (hmem : text ∈ texts)
    (hunreadable : ∀ n, Node.parse text ≠ .ok n) :
    ∃ complaint, readIdentifiers texts = .error (.invalidArguments complaint "") := by
  cases hread : Permission.parseAll texts with
  | error fault =>
    refine ⟨fault.message, ?_⟩
    simp [readIdentifiers, hread, List.ne_nil_of_mem hmem]
  | ok nodes =>
    obtain ⟨n, -, hn⟩ := Permission.exists_of_parseAll hread hmem
    exact absurd hn (hunreadable n)

theorem malformed_or_names (words : List String) :
    Malformed words ∨ ∃ target nodes, Names words target nodes := by
  cases words with
  | nil => exact .inl .nobody
  | cons target texts =>
    by_cases hread : ∀ text ∈ texts, ∃ n, Node.parse text = .ok n
    · obtain ⟨nodes, hnodes⟩ := Permission.exists_parseAll hread
      rw [Permission.parseAll_eq_ok] at hnodes
      cases hnodes with
      | nil => exact .inl (.nothing target)
      | cons hfirst hrest =>
        exact .inr ⟨target, _, ⟨_, rfl, .cons hfirst hrest⟩, List.cons_ne_nil _ _⟩
    · simp only [not_forall, not_exists] at hread
      obtain ⟨text, hmem, hunreadable⟩ := hread
      exact .inl (.identifier hmem hunreadable)

theorem Malformed.writes_eq_nil {ctx : Context} (h : Malformed ctx.args) {order : Order}
    (horder : order ≠ .roles) : order.writes ctx = [] := by
  unfold Order.writes
  generalize ctx.args = words at h
  cases h with
  | nobody => rfl
  | nothing target =>
    cases order with
    | roles => exact absurd rfl horder
    | _ => rfl
  | identifier hmem hunreadable =>
    obtain ⟨complaint, hread⟩ := readIdentifiers_refused hmem hunreadable
    cases order with
    | roles => exact absurd rfl horder
    | _ => simp only [hread]

section Runs

variable (source : Source Store) (ctx : Context) (c : Cache)

theorem run_changeAll (text : String) {writes : List Write}
    (h : ∀ w ∈ writes, ∃ changed, w.canonical = .ok changed) (s : Store) :
    (changeAll Access.memory text writes).run source ctx c s =
      (.ok (.str text), c, writes.foldl Store.after s) := by
  induction writes generalizing s with
  | nil => rfl
  | cons w rest ih =>
    obtain ⟨changed, hchanged⟩ := h w List.mem_cons_self
    simp only [changeAll, Script.attempt, Script.call, Script.run, change_memory hchanged]
    exact ih (fun other hother => h other (List.mem_cons_of_mem w hother)) (s.after w)

/-- Overrides are cleared one after the other, and then what there was to clear is reported: each
identifier that had an override, once. -/
theorem run_clearAll {guild user : String} {next : List String → Script Store}
    {nodes : List String} (h : ∀ node ∈ nodes, ∃ n : Node, Node.parse node = .ok n ∧ n.value = node)
    {removed : List String} (hnodup : removed.Nodup) {s : Store}
    (hgone : ∀ node ∈ removed, (s.overrideEntries guild user).lookup node = none) :
    ∃ found, (clearAll Access.memory guild user next nodes removed).run source ctx c s =
        (next found).run source ctx c
          ((nodes.map fun node => Write.clearOverride guild user node).foldl Store.after s) ∧
      found.Nodup ∧ ∀ node, node ∈ found ↔
        node ∈ removed ∨ node ∈ nodes ∧ ((s.overrideEntries guild user).lookup node).isSome := by
  induction nodes generalizing removed s with
  | nil => exact ⟨removed.reverse, rfl, (List.reverse_perm removed).nodup_iff.mpr hnodup, by simp⟩
  | cons node rest ih =>
    obtain ⟨n, hn, rfl⟩ := h node List.mem_cons_self
    have hcanonical : (Write.clearOverride guild user n.value).canonical =
        .ok (.clearOverride guild user n.value) := by
      rw [Write.canonical, hn]
      rfl
    have hafter (other : String) :
        ((s.after (.clearOverride guild user n.value)).overrideEntries guild user).lookup other =
          if other = n.value then none else (s.overrideEntries guild user).lookup other := by
      rw [Store.after_of_canonical hcanonical, Store.overrideEntries_apply]
      simp [Assoc.lookup_remove]
    simp only [clearAll, Script.attempt, Script.call, Script.run, change_memory hcanonical,
      Store.apply_clearOverride, List.map_cons, List.foldl_cons]
    have hrest := fun other hother => h other (List.mem_cons_of_mem n.value hother)
    -- What has been cleared has no override any more, so that it is not reported again.
    cases hfound : (s.overrideEntries guild user).lookup n.value with
    | none =>
      obtain ⟨found, hrun, hunique, hmem⟩ := ih hrest hnodup fun node hnode => by
        rw [hafter, hgone node hnode, ite_self]
      refine ⟨found, hrun, hunique, fun node => ?_⟩
      rw [hmem, hafter, List.mem_cons]
      by_cases heq : node = n.value
      · simp [heq, hfound]
      · simp [heq]
    | some decision =>
      have hnew : n.value ∉ removed := by
        intro hmem
        rw [hgone _ hmem] at hfound
        cases hfound
      obtain ⟨found, hrun, hunique, hmem⟩ :=
          ih hrest (List.nodup_cons.mpr ⟨hnew, hnodup⟩) fun node hnode => by
        rw [hafter]
        rcases List.mem_cons.mp hnode with rfl | hnode
        · simp
        · rw [hgone node hnode, ite_self]
      refine ⟨found, hrun, hunique, fun node => ?_⟩
      rw [hmem, hafter, List.mem_cons, List.mem_cons]
      by_cases heq : node = n.value
      · simp [heq, hfound]
      · simp [heq]

/-- A command with malformed words ends with a complaint, and nothing has been changed. -/
theorem run_malformed {order : Order} (horder : order ≠ .roles) (h : Malformed ctx.args)
    (s : Store) :
    ∃ complaint, (order.script Access.memory ctx).run source ctx c s =
      (.error (.dispatch (.invalidArguments complaint "")), c, s) := by
  have hrefused (missing : String) (next : String → List String → Script Store) :
      ∃ complaint, (withIdentifiers missing ctx next).run source ctx c s =
        (.error (.dispatch (.invalidArguments complaint "")), c, s) := by
    unfold withIdentifiers
    generalize ctx.args = words at h
    cases h with
    | nobody => exact ⟨missing, rfl⟩
    | nothing target => exact ⟨_, rfl⟩
    | identifier hmem hunreadable =>
      obtain ⟨complaint, hread⟩ := readIdentifiers_refused hmem hunreadable
      refine ⟨complaint, ?_⟩
      simp [hread, Script.fail, Script.run]
  cases order with
  | roles => exact absurd rfl horder
  | _ => exact hrefused _ _

theorem withIdentifiers_named {target : String} {nodes : List Node}
    (h : Names ctx.args target nodes) (missing : String)
    (next : String → List String → Script Store) :
    withIdentifiers missing ctx next = next target (nodes.map (·.value)) := by
  obtain ⟨texts, hargs, hread⟩ := h.exists_readIdentifiers
  simp only [withIdentifiers, hargs, hread]

theorem run_changing {target : String} {nodes : List Node} (h : Names ctx.args target nodes)
    {missing : String} (text : String → List String → String) (write : String → String → Write)
    (named : Node → Write)
    (hnamed : ∀ node, (write target node).canonical = (do return named (← Node.parse node)))
    (s : Store) :
    (withIdentifiers missing ctx fun target nodes =>
        changeAll Access.memory (text target nodes) (nodes.map (write target))).run source ctx c s =
      (.ok (.str (text target (nodes.map (·.value)))), c,
        ((nodes.map (·.value)).map (write target)).foldl Store.after s) := by
  rw [withIdentifiers_named ctx h, run_changeAll]
  intro w hw
  obtain ⟨node, hnode, rfl⟩ := List.mem_map.mp hw
  obtain ⟨n, hn, rfl⟩ := List.mem_map.mp hnode
  have hparse : Node.parse n.value = .ok n := h.canonical n hn
  exact ⟨named n, by rw [hnamed, hparse]; rfl⟩

/-- A reset clears every override that it names, and reports each that there was, once. -/
theorem run_reset {target : String} {nodes : List Node} (h : Names ctx.args target nodes)
    (s : Store) :
    ∃ removed : List String,
      (resetPermissions Access.memory ctx).run source ctx c s =
        (.ok (.str (if removed.isEmpty then
            s!"{memberId target} has no overrides for {shown (nodes.map (·.value))}."
          else s!"Removed overrides {shown removed} from {memberId target}.")), c,
          ((nodes.map (·.value)).map fun node =>
            Write.clearOverride (guildOf ctx) (memberId target) node).foldl Store.after s) ∧
      removed.Nodup ∧ ∀ node, node ∈ removed ↔ node ∈ nodes.map (·.value) ∧
        ((s.overrideEntries (guildOf ctx) (memberId target)).lookup node).isSome := by
  have hread : ∀ node ∈ nodes.map (·.value), ∃ n : Node, Node.parse node = .ok n ∧ n.value = node := by
    intro node hnode
    obtain ⟨n, hn, rfl⟩ := List.mem_map.mp hnode
    exact ⟨n, h.canonical n hn, rfl⟩
  obtain ⟨removed, hrun, hnodup, hmem⟩ :=
    run_clearAll source ctx c hread List.nodup_nil (s := s) nofun
  refine ⟨removed, ?_, hnodup, by simpa using hmem⟩
  rw [resetPermissions, withIdentifiers_named ctx h, hrun]
  split <;> rfl

/-- A command whose words are in order succeeds, and leaves the store as its changes do. -/
theorem run_named {order : Order} (horder : order ≠ .roles) {target : String} {nodes : List Node}
    (h : Names ctx.args target nodes) (s : Store) :
    ∃ reply, (order.script Access.memory ctx).run source ctx c s =
      (.ok (.str reply), c, (order.writes ctx).foldl Store.after s) := by
  obtain ⟨texts, hargs, hread⟩ := h.exists_readIdentifiers
  simp only [Order.writes, hargs, hread]
  cases order with
  | allow =>
    exact ⟨_, run_changing source ctx c h _
      (fun target node => .setOverride (guildOf ctx) (memberId target) node true)
      (fun n => .setOverride (guildOf ctx) (memberId target) n.value true) (fun node => rfl) s⟩
  | deny =>
    exact ⟨_, run_changing source ctx c h _
      (fun target node => .setOverride (guildOf ctx) (memberId target) node false)
      (fun n => .setOverride (guildOf ctx) (memberId target) n.value false) (fun node => rfl) s⟩
  | reset =>
    obtain ⟨removed, hrun, -⟩ := run_reset source ctx c h s
    exact ⟨_, hrun⟩
  | grant =>
    exact ⟨_, run_changing source ctx c h _
      (fun target node => .grantRole (guildOf ctx) (roleId target) node)
      (fun n => .grantRole (guildOf ctx) (roleId target) n.value) (fun node => rfl) s⟩
  | ungrant =>
    exact ⟨_, run_changing source ctx c h _
      (fun target node => .revokeRole (guildOf ctx) (roleId target) node)
      (fun n => .revokeRole (guildOf ctx) (roleId target) n.value) (fun node => rfl) s⟩
  | roles => exact absurd rfl horder

theorem run_order (order : Order) (s : Store) :
    ((order.script Access.memory ctx).run source ctx c s).2.2 =
      (order.writes ctx).foldl Store.after s := by
  by_cases horder : order = .roles
  · subst horder
    simp only [Order.script, setRoles, Order.writes]
    cases ctx.args with
    | nil => rfl
    | cons target rest =>
      dsimp only
      rw [run_changeAll]
      intro w hw
      obtain rfl := List.mem_singleton.mp hw
      exact ⟨_, rfl⟩
  · rcases malformed_or_names ctx.args with hmalformed | ⟨target, nodes, hnames⟩
    · obtain ⟨complaint, hrun⟩ := run_malformed source ctx c horder hmalformed s
      rw [hrun, hmalformed.writes_eq_nil horder]
      rfl
    · obtain ⟨reply, hrun⟩ := run_named source ctx c horder hnames s
      rw [hrun]

end Runs

/-- Something done to the permissions: a command, or a change on its own. -/
inductive Deed
  | command (order : Order) (ctx : Context)
  | change (w : Write)

namespace Deed

def writes : Deed → List Write
  | command order ctx => order.writes ctx
  | change w => [w]

def carryOut (s : Store) : Deed → Store
  | command order ctx => ((order.script Access.memory ctx).run Source.memory ctx .empty s).2.2
  | change w => (Access.memory.change w s).2

theorem carryOut_eq (s : Store) (deed : Deed) :
    deed.carryOut s = deed.writes.foldl Store.after s := by
  cases deed with
  | command order ctx => exact run_order .memory ctx .empty order s
  | change w => exact change_memory_snd w s

end Deed

section Denial

variable {s : Store} {guild user : String} {n : Node}

theorem denied_after {w : Write} (hw : ¬ w.Lifts guild user n)
    (h : (s.overrideEntries guild user).lookup n.value = some false) :
    ((s.after w).overrideEntries guild user).lookup n.value = some false := by
  rw [Store.lookup_overrideEntries_after]
  cases hword : w.overrideFor guild user n with
  | none => exact h
  | some decision =>
    cases decision with
    | none => exact absurd (.inr hword) hw
    | some allow =>
      cases allow with
      | false => rfl
      | true => exact absurd (.inl hword) hw

theorem denied_foldl {writes : List Write} (hwrites : ∀ w ∈ writes, ¬ w.Lifts guild user n)
    (h : (s.overrideEntries guild user).lookup n.value = some false) :
    ((writes.foldl Store.after s).overrideEntries guild user).lookup n.value = some false := by
  induction writes generalizing s with
  | nil => exact h
  | cons w rest ih =>
    have hfirst := denied_after (hwrites w List.mem_cons_self) h
    exact ih (fun other hother => hwrites other (List.mem_cons_of_mem w hother)) hfirst

theorem denied_deeds {later : List Deed}
    (hlater : ∀ deed ∈ later, ∀ w ∈ deed.writes, ¬ w.Lifts guild user n)
    (h : (s.overrideEntries guild user).lookup n.value = some false) :
    ((later.foldl Deed.carryOut s).overrideEntries guild user).lookup n.value = some false := by
  induction later generalizing s with
  | nil => exact h
  | cons deed rest ih =>
    have hfirst := denied_foldl (hlater deed List.mem_cons_self) h
    rw [← deed.carryOut_eq] at hfirst
    exact ih (fun other hother => hlater other (List.mem_cons_of_mem deed hother)) hfirst

theorem reachable_deeds (hs : s.Reachable) (later : List Deed) :
    (later.foldl Deed.carryOut s).Reachable := by
  induction later generalizing s with
  | nil => exact hs
  | cons deed rest ih =>
    refine ih ?_
    rw [deed.carryOut_eq]
    exact hs.foldl deed.writes

theorem denied_by_command {ctx : Context} {c : Cache} {target text : String} {texts : List String}
    {v : Value} (hguild : ctx.caller.guild = some guild) (hargs : ctx.args = target :: texts)
    (htarget : memberId target = user) (htext : text ∈ texts) (hn : Node.parse text = .ok n)
    (hdone : ((Order.deny.script Access.memory ctx).run Source.memory ctx c s).1 = .ok v) :
    (((Order.deny.script Access.memory ctx).run Source.memory ctx c s).2.2.overrideEntries guild
      user).lookup n.value = some false := by
  rw [run_order]
  cases hread : readIdentifiers texts with
  | error e =>
    simp [Order.script, overridePermissions, withIdentifiers, hargs, hread, Script.fail,
      Script.run] at hdone
  | ok nodes =>
    obtain ⟨parsed, hparsed, rfl⟩ := readIdentifiers_ok hread
    have hmem : n ∈ parsed := (Permission.mem_of_parseAll hparsed).mpr ⟨text, htext, hn⟩
    have hwrites : Order.deny.writes ctx =
        (parsed.map (·.value)).map fun node => .setOverride guild user node false := by
      simp only [Order.writes, hargs, hread, guildOf, hguild, htarget, Option.getD_some]
    obtain ⟨before, after, rfl⟩ := List.append_of_mem hmem
    have hlifts (m : Node) : ¬ (Write.setOverride guild user m.value false).Lifts guild user n := by
      simp [Write.Lifts, Write.overrideFor]
    -- Whatever is denied before it, the identifier is denied, and nothing after it lifts that.
    rw [hwrites, List.map_append, List.map_append, List.foldl_append, List.map_cons, List.map_cons,
      List.foldl_cons]
    apply denied_foldl
    · intro w hw
      simp only [List.map_map, List.mem_map] at hw
      obtain ⟨m, -, rfl⟩ := hw
      exact hlifts m
    · rw [Store.lookup_overrideEntries_after]
      have hcanonical : Node.parse n.value = .ok n := Node.canonical_of_parse hn
      simp [Write.overrideFor, hcanonical]

/-- After a successful denial of an identifier, and whatever else is done that neither allows nor
clears just this one for the member: they are told not to hold anything it covers, and run no
command that requires such an identifier, unless they are a superuser. -/
theorem denial_stands (hs : s.Reachable) {ctx : Context} {c : Cache} {target text : String}
    {texts : List String} {v : Value} (hguild : ctx.caller.guild = some guild)
    (hargs : ctx.args = target :: texts) (htarget : memberId target = user) (htext : text ∈ texts)
    (hn : Node.parse text = .ok n)
    (hdone : ((Order.deny.script Access.memory ctx).run Source.memory ctx c s).1 = .ok v)
    {later : List Deed} (hlater : ∀ deed ∈ later, ∀ w ∈ deed.writes, ¬ w.Lifts guild user n)
    {m : Node} (hcovers : n.covers m = true) :
    let t := later.foldl Deed.carryOut
      ((Order.deny.script Access.memory ctx).run Source.memory ctx c s).2.2
    (∀ asked, Node.parse asked = .ok m →
      Access.memory.ask (.holds (some guild) user asked) t = (.ok (.held false), t)) ∧
    ∀ {ε : Type} (d : Dispatcher ε Store), d.registry.Reachable → d.source = .memory →
      user ∉ d.superusers → ∀ message channel,
      ∀ call ∈ d.journal message ⟨user, some guild, channel⟩ t, ∀ id definition,
        call.context.node = some id → d.registry.definition? id = some definition →
          m.value ∉ definition.permissions := by
  intro t
  have ht : t.Reachable := by
    refine reachable_deeds ?_ later
    rw [run_order]
    exact hs.foldl _
  have hdenied : t.Overridden guild user false m :=
    ⟨n, denied_deeds hlater (denied_by_command hguild hargs htarget htext hn hdone), hcovers⟩
  have hnot : ¬ t.Holds guild user m := fun hholds => hholds.2 hdenied
  constructor
  · intro asked hasked
    obtain ⟨held, hask, hiff⟩ := ht.sound.2.ask_holds guild user hasked
    have hheld : held = false := by
      rw [← Bool.not_eq_true, hiff]
      exact hnot
    rw [hask, hheld]
  · intro ε d hr hsource hsuper message channel call hcall id definition hid hdefined hrequires
    -- A call in the journal has been authorised, which takes holding all that is required.
    obtain ⟨found, hpermits⟩ := d.permits_of_mem_journal hr hcall
    have hfound := hpermits.defined
    rw [hid, Option.bind_some, hdefined] at hfound
    obtain rfl := Option.some.inj hfound
    rcases hpermits.authorised with hnone | hauthor | ⟨g, r, grants, hg, hreading, -, hall⟩
    · rw [hnone] at hrequires
      cases hrequires
    · exact hsuper hauthor
    · obtain rfl : guild = g := Option.some.inj hg
      obtain ⟨held, hvalue, hholds⟩ := hall m.value hrequires
      obtain ⟨r', g', hread, -, hiff⟩ := ht.sound.2.exists_reading guild user
      rw [hsource, Source.reading_memory, hread] at hreading
      obtain rfl : r' = r := Except.ok.inj hreading
      rw [Node.eq_of_value hvalue, hiff] at hholds
      exact hnot hholds

/-- A denial outlives a role with the identifier, an allowed wildcard, and the reset of another
identifier. -/
theorem denial_outlives_grants :
    let said (words : List String) : Context :=
      ⟨⟨"9", some "1", "c"⟩, "", false, [], none, "", words⟩
    let later : List Deed := [.command .roles (said ["42", "mod"]),
      .command .grant (said ["<@&mod>", "Admin.*", "admin.kick"]),
      .command .allow (said ["<@42>", "admin.*"]), .change (.clearOverride "1" "42" "admin.ban"),
      .command .reset (said ["42", "admin"])]
    let denied := ((Order.deny.script Access.memory (said ["<@42>", "music", "Admin.Kick"])).run
      .memory (said ["<@42>", "music", "Admin.Kick"]) .empty .empty).2.2
    (Access.memory.ask (.holds (some "1") "42" "ADMIN.kick") (later.foldl Deed.carryOut denied)).1 =
      .ok (.held false) := by
  intro said later denied
  let kick : Node := ⟨"admin.kick", by decide⟩
  have hn : Node.parse "Admin.Kick" = .ok kick := by decide +kernel
  have hlater : ∀ deed ∈ later, ∀ w ∈ deed.writes, ¬ w.Lifts "1" "42" kick := by decide +kernel
  have hok : ((Order.deny.script Access.memory (said ["<@42>", "music", "Admin.Kick"])).run
      .memory (said ["<@42>", "music", "Admin.Kick"]) .empty .empty).1.isOk = true := by
    decide +kernel
  obtain ⟨v, hdone⟩ := exists_of_isOk hok
  obtain ⟨hheld, -⟩ := denial_stands (n := kick) (m := kick) .empty rfl rfl (by decide +kernel)
    (by simp) hn hdone hlater (by decide +kernel)
  rw [hheld "ADMIN.kick" (by decide +kernel)]

end Denial

end Feature

end Guildhall
