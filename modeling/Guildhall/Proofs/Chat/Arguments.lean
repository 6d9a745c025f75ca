import Guildhall.Chat.Bot
import Guildhall.Proofs.Command.Forest
import Guildhall.Proofs.Command.Token
import Guildhall.Proofs.Dispatch.Gate

/-!
# Arguments on their way

A message that spells a command and quotes its arguments runs that command with these arguments.
-/

namespace Guildhall.Chat

open Command (join tokenize)
open Dispatch (Call Dispatcher)
open Text (Solid)

variable {ε σ : Type} {manners : Manners} {d : Dispatcher ε σ} {m : Message} {s : σ}

/-- The executors that handling a message runs, in order. -/
def journal (manners : Manners) (d : Dispatcher ε σ) (m : Message) (s : σ) : List (Call ε) :=
  (handle manners d.journaled m ([], s)).2.2.1

theorem journal_of_command {text : String} (h : manners.command? m = some text) :
    journal manners d m s = d.journal text m.caller s := by
  simp [journal, handle, h, Dispatcher.journal]

/-- What follows the sigil is the command text, if no blanks are to be trimmed. -/
theorem command?_of_solid (hauthor : m.authorIsBot = false) {text : String}
    (hcontent : m.content = manners.sigil ++ text) (hsolid : Solid m.content.toList) :
    manners.command? m = some text := by
  have htrim := hsolid.trimChars
  rw [hcontent, String.toList_append] at htrim
  have hbegins : manners.sigil.toList.isPrefixOf (manners.sigil.toList ++ text.toList) = true :=
    List.isPrefixOf_iff_prefix.mpr (List.prefix_append _ _)
  simp [Manners.command?, hauthor, hcontent, htrim, hbegins]

/-- Written with the sigil before them, words are the tokens of the command text, whatever
characters they hold. -/
theorem command?_join (hauthor : m.authorIsBot = false) {words : List String} (hsome : words ≠ [])
    (hsigil : ∀ c ∈ manners.sigil.toList.head?, Text.isBlank c = false)
    (hcontent : m.content = manners.sigil ++ join words) :
    manners.command? m = some (join words) := by
  refine command?_of_solid hauthor hcontent ?_
  rw [hcontent, String.toList_append]
  exact (Command.solid_join hsome).prepend hsigil

theorem ne_nil_of_spells {r : Command.Registry ε} {id : Nat} {path : List String}
    (h : r.Spells (some id) path) : path ≠ [] := by
  cases h with
  | child => simp

/-- A message that spells the path of a command and quotes the arguments after it, written by
somebody who may run the command, runs its executor and no other, once, with these arguments: empty
ones, blanks and quotes of both kinds arrive as they are. -/
theorem arguments_arrive_unchanged (manners : Manners) (d : Dispatcher ε σ)
    (hr : d.registry.Reachable) (m : Message) (s : σ) {id : Nat}
    {definition : Command.Definition ε} (hdefined : d.registry.definition? id = some definition)
    {executor : ε} (hexecutor : definition.executor = some executor) {path args : List String}
    (hpath : d.registry.Spells (some id) path)
    (hargs : ∀ word ∈ args.head?, ¬ d.registry.Leads (some id) word)
    (hsigil : ∀ c ∈ manners.sigil.toList.head?, Text.isBlank c = false)
    (hauthor : m.authorIsBot = false) (hcontent : m.content = manners.sigil ++ join (path ++ args))
    (hplaced : definition.guildOnly = true → m.guild ≠ none)
    (hauthorised : d.Authorised m.caller s definition.permissions) :
    ∃ ctx, journal manners d m s = [⟨executor, ctx⟩] ∧ ctx.args = args ∧ ctx.node = some id ∧
      ctx.command = d.registry.qualifiedName (some id) ∧ ctx.caller = m.caller := by
  have hsome : path ++ args ≠ [] := by simp [ne_nil_of_spells hpath]
  have hcommand := command?_join hauthor hsome hsigil hcontent
  have hfound := hpath.lookup_append hr.forest hargs
  refine ⟨d.contextOf (join (path ++ args)) m.caller (path ++ args) (some id) args, ?_, rfl, rfl,
    rfl, rfl⟩
  rw [journal_of_command hcommand]
  exact Dispatcher.journal_of_permits hr {
    tokenized := Command.tokenize_join (path ++ args)
    found := hfound
    defined := hdefined
    executable := hexecutor
    placed := hplaced
    authorised := hauthorised
    context := rfl }

/-- A superuser grants a role to somebody whose name is full of quotes, in a direct message, with
another case for the group and an alias for the command. -/
theorem quoted_name_arrives :
    let roles : Command.Definition Nat := ⟨"Roles", none, "", "", "", [], [], false, ""⟩
    let grant : Command.Definition Nat :=
      ⟨"grant", some 7, "", "", "", ["G"], ["roles.grant"], false, ""⟩
    let d : Dispatcher Nat Permission.Store :=
      ⟨(Command.Registry.empty.insert none roles).insert (some 0) grant, .memory, ["42"],
        fun _ _ => .done (.ok .null)⟩
    let args := ["it's \"so\"", "", "\u00a0 x", "G"]
    let m : Message := ⟨"! " ++ join (["ROLES", "g"] ++ args), none, "c", "42", false⟩
    ∃ ctx, journal ⟨"! ", true⟩ d m ⟨[]⟩ = [⟨7, ctx⟩] ∧ ctx.args = args ∧
      ctx.command = "Roles grant" := by
  intro roles grant d args m
  have hroles : (Command.Registry.empty : Command.Registry Nat).register [] roles =
      .ok (Command.Registry.empty.insert none roles) :=
    Command.Registry.register_eq_ok.mpr
      ⟨rfl, none, rfl, by decide +kernel, by decide +kernel, rfl⟩
  have hchild : (Command.Registry.empty.insert none roles).child? none "roles" = some 0 := by
    decide +kernel
  have hgrant : (Command.Registry.empty.insert none roles).register ["roles"] grant =
      .ok d.registry :=
    Command.Registry.register_eq_ok.mpr ⟨rfl, some 0, by simp [Command.Registry.walkPath, hchild],
      by decide +kernel, by decide +kernel, rfl⟩
  have hr : d.registry.Reachable := by
    refine .register (.register .empty (d := roles) (Command.Definition.check_eq_ok.mpr ?_) hroles)
      (d := grant) (Command.Definition.check_eq_ok.mpr ?_) hgrant
    · exact ⟨by decide +kernel, [], rfl, rfl⟩
    · exact ⟨by decide +kernel, [⟨"roles.grant", by decide⟩], by rfl, rfl⟩
  have hgroup : d.registry.Spells (some 0) ([] ++ ["ROLES"]) :=
    .child rfl .root (show Text.lower "ROLES" ∈ roles.keys by decide +kernel)
  have hpath : d.registry.Spells (some 1) (["ROLES"] ++ ["g"]) :=
    .child rfl hgroup (show Text.lower "g" ∈ grant.keys by decide +kernel)
  have hargs : ∀ word ∈ args.head?, ¬ d.registry.Leads (some 1) word := by
    rintro word - ⟨id, node, hnode, hparent, -⟩
    rcases id with _ | _ | id <;> cases hnode <;> cases hparent
  have hsigil : ∀ c ∈ "! ".toList.head?, Text.isBlank c = false := by
    intro c hc
    obtain rfl : '!' = c := by simpa using hc
    decide
  have hdefined : d.registry.definition? 1 = some grant := rfl
  have hauthor : "42" ∈ d.superusers := List.mem_singleton_self "42"
  obtain ⟨ctx, hjournal, hargs, -, hcommand, -⟩ := arguments_arrive_unchanged ⟨"! ", true⟩ d hr m
    ⟨[]⟩ hdefined rfl hpath hargs hsigil rfl rfl (fun h => by cases h) (.inr (.inl hauthor))
  exact ⟨ctx, hjournal, hargs, hcommand.trans (by decide +kernel)⟩

end Guildhall.Chat
