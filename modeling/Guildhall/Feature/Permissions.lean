import Guildhall.Chat.Action
import Guildhall.Feature.Mention
import Guildhall.Permission.Request

/-!
# Permission commands

Commands by which moderators see and change the permissions of members and roles in their guild.
Arguments are checked completely before anything is changed.
-/

namespace Guildhall.Feature

open Chat (Action Entry)
open Command (Definition)
open Dispatch (Context Script)
open Permission (Access Write)

variable {σ : Type}

/-- What every permission command requires. -/
def manage : String := "permissions.manage"

/-- The guild of an invocation; these commands run in guilds only. -/
def guildOf (ctx : Context) : String := ctx.caller.guild.getD ""

def complain (message : String) : Script σ :=
  .fail (.dispatch (.invalidArguments message ""))

/-- Goes on with the first argument and the canonical identifiers in the others. -/
def withIdentifiers (missing : String) (ctx : Context)
    (next : String → List String → Script σ) : Script σ :=
  match ctx.args with
  | [] => complain missing
  | target :: rest =>
    match readIdentifiers rest with
    | .error e => .fail (.dispatch e)
    | .ok nodes => next target nodes

def changeAll (access : Access σ) (text : String) : List Write → Script σ
  | [] => .give (.str text)
  | w :: rest => .attempt (access.change w) fun _ => changeAll access text rest

def clearAll (access : Access σ) (guild user : String) (next : List String → Script σ) :
    List String → List String → Script σ
  | [], removed => next removed.reverse
  | node :: rest, removed =>
    .attempt (access.change (.clearOverride guild user node)) fun wasThere =>
      clearAll access guild user next rest (if wasThere then node :: removed else removed)

def shown (nodes : List String) : String := "`" ++ "`,`".intercalate nodes ++ "`"

/-- The items of a list in a reply, or a word for none. -/
def orNobody (items : List String) : String :=
  if items.isEmpty then "(none)" else ", ".intercalate items

def permissionReport (user : String) (roles effective : List String)
    (overrides : List Permission.Override) : String :=
  let texts (allow : Bool) : List String :=
    Permission.sortTexts ((overrides.filter fun o => o.allow == allow).map (·.node.value))
  "\n".intercalate [s!"**Permissions of {user}**",
    "Roles: " ++ orNobody (Permission.sortTexts roles),
    "Allowed: " ++ orNobody (texts true),
    "Denied: " ++ orNobody (texts false),
    "Effective: " ++ orNobody effective]

def showPermissions (access : Access σ) (ctx : Context) : Script σ :=
  let user := match ctx.args with
    | token :: _ => memberId token
    | [] => ctx.caller.author
  let guild := guildOf ctx
  .attempt (access.source.memberRoles guild user) fun roles =>
  .attempt (access.source.allRolePermissions guild roles) fun texts =>
  .attempt (access.source.overrides guild user) fun overrides =>
    match Permission.parseAll texts with
    | .error fault => .fail fault.failure
    | .ok nodes =>
      let effective := (Permission.Grants.build nodes overrides).effective
      .give (.str (permissionReport user roles effective overrides))

def overridePermissions (access : Access σ) (allow : Bool) (ctx : Context) : Script σ :=
  withIdentifiers "Expected a member" ctx fun target nodes =>
    let user := memberId target
    let verb := if allow then "Allowed" else "Denied"
    changeAll access s!"{verb} {shown nodes} for {user}."
      (nodes.map fun node => .setOverride (guildOf ctx) user node allow)

def resetPermissions (access : Access σ) (ctx : Context) : Script σ :=
  withIdentifiers "Expected a member" ctx fun target nodes =>
    let user := memberId target
    let report (removed : List String) : Script σ :=
      if removed.isEmpty then .give (.str s!"{user} has no overrides for {shown nodes}.")
      else .give (.str s!"Removed overrides {shown removed} from {user}.")
    clearAll access (guildOf ctx) user report nodes []

def grantPermissions (access : Access σ) (ctx : Context) : Script σ :=
  withIdentifiers "Expected a role" ctx fun target nodes =>
    let role := roleId target
    changeAll access s!"Added permissions {shown nodes} to role {role}."
      (nodes.map fun node => .grantRole (guildOf ctx) role node)

def ungrantPermissions (access : Access σ) (ctx : Context) : Script σ :=
  withIdentifiers "Expected a role" ctx fun target nodes =>
    let role := roleId target
    changeAll access s!"Removed permissions {shown nodes} from role {role}."
      (nodes.map fun node => .revokeRole (guildOf ctx) role node)

def setRoles (access : Access σ) (ctx : Context) : Script σ :=
  match ctx.args with
  | [] => complain "Expected a member"
  | target :: rest =>
    let user := memberId target
    let roles := Permission.distinct (rest.map roleId)
    changeAll access s!"Roles of {user}: {orNobody (Permission.sortTexts roles)}."
      [.setMemberRoles (guildOf ctx) user roles]

def permissionEntry (name description usage sample : String) (run : Context → Script σ) :
    Entry σ :=
  (["perms"], { Chat.plain "perms" name (some (.custom run)) description with
    usage := usage, sample := sample, permissions := [manage], guildOnly := true })

def permissionEntries (access : Access σ) : List (Entry σ) :=
  let show_ := permissionEntry "show" "Show roles, overrides and effective permissions of a member."
    "[@User]" "@Robbbbbbb" (showPermissions access)
  [([], { Chat.plain "perms" "perms" none "Manage member and role permissions." with
      aliases := ["permissions"] }),
    (show_.1, { show_.2 with aliases := ["list"] }),
    permissionEntry "allow" "Grant permissions to a member, overriding their roles."
      "<@User> <Permission...>" "@Robbbbbbb music.*" (overridePermissions access true),
    permissionEntry "deny" "Revoke permissions from a member, even if a role grants them."
      "<@User> <Permission...>" "@Robbbbbbb admin.ban" (overridePermissions access false),
    permissionEntry "reset" "Remove permission overrides of a member."
      "<@User> <Permission...>" "@Robbbbbbb admin.ban" (resetPermissions access),
    permissionEntry "grant" "Add permissions to a role."
      "<@Role> <Permission...>" "moderator admin.kick" (grantPermissions access),
    permissionEntry "ungrant" "Remove permissions from a role."
      "<@Role> <Permission...>" "moderator admin.kick" (ungrantPermissions access),
    permissionEntry "roles" "Replace the roles of a member; no roles clears them."
      "<@User> [Role...]" "@Robbbbbbb moderator" (setRoles access)]

end Guildhall.Feature
