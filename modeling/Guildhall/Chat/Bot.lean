import Guildhall.Chat.Message
import Guildhall.Chat.Reply
import Guildhall.Dispatch.Dispatcher

/-!
# Bot

Takes inbound messages: announces them, drops those that are not commands, dispatches the rest
and answers.
-/

namespace Guildhall.Chat

open Dispatch (Caller Dispatcher Outcome)
open Hook (Event)

structure Manners where
  sigil : String
  ignoreBots : Bool
  deriving DecidableEq, Repr

def Message.event (m : Message) : Event :=
  .messageReceived m.content m.guild m.channel m.author m.authorIsBot

def Message.caller (m : Message) : Caller := ⟨m.author, m.guild, m.channel⟩

def Manners.command? (manners : Manners) (m : Message) : Option String :=
  let sigil := manners.sigil.toList
  let text := Text.trimChars Text.isBlank m.content.toList
  if m.authorIsBot && manners.ignoreBots then none
  else if sigil.isPrefixOf text then some (String.ofList (text.drop sigil.length))
  else none

/-- What the author of a message is told about its outcome; nothing when there is nothing to
say. -/
def Manners.reply (manners : Manners) (o : Outcome) : String :=
  match o.result with
  | .ok v => resultReply v
  | .error e => errorReply manners.sigil e

variable {ε σ : Type}

/-- Handles a message: its outcome unless it is dropped, and what subscribers are told. -/
def handle (manners : Manners) (d : Dispatcher ε σ) (m : Message) (s : σ) :
    Option Outcome × List Event × σ :=
  match manners.command? m with
  | none => (none, [m.event], s)
  | some text =>
    let (outcome, events, s) := d.dispatch text m.caller s
    (some outcome, m.event :: events, s)

end Guildhall.Chat
