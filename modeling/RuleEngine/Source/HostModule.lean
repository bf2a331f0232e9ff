import RuleEngine.Source.HostClass

/-!
# Modules of the host

A module holds functions and other values under names. Those of its functions that declare rules and
say that they belong to it are a source of rules. Some members tell about the module itself: its
name, and where it comes from.
-/

namespace RuleEngine

/-- A module of the host: its members in order. -/
structure HostModule where
  name : String
  members : List (String × ClassMember)

namespace HostModule

/-- The names every module has, before those of its members. -/
def standardNames : List String := ["__name__", "__doc__", "__package__", "__loader__", "__spec__"]

/-- The module's name: that of a member if it is called so. -/
def title (m : HostModule) : ClassMember :=
  (m.members.lookup "__name__").getD (.plain (.text m.name))

def shownName (m : HostModule) : String :=
  match m.title with
  | .plain v => v.display
  | .function f => f.inspect

/-- What the module has under a name, or nothing. -/
def member (m : HostModule) (name : String) : ClassMember :=
  (m.members.lookup name).getD (.plain .none)

/-- Where the module was read from, or else what read it, if it says so. -/
def origin (m : HostModule) : String :=
  match m.members.lookup "__file__", m.member "__loader__" with
  | some file, _ => " from " ++ file.inspect
  | none, .plain .none => ""
  | none, loader => " (" ++ loader.inspect ++ ")"

/-- The module as it is shown. Fails on a member that stands for a description of the module, since
it is none. -/
def inspect (m : HostModule) : Except Fault String :=
  if (m.member "__spec__").truthy then .error (.missingAttribute "spec" "name")
  else .ok ("<module " ++ m.title.inspect ++ m.origin ++ ">")

def orderedMembers (m : HostModule) : List (String × ClassMember) :=
  standardNames.filterMap (fun n => (m.members.lookup n).map fun d => (n, d))
    ++ m.members.filter fun e => !standardNames.contains e.1

/-- Whether a function says that it belongs to the module. -/
def isHomeOf (m : HostModule) (f : HostFunction) : Bool :=
  match m.title with
  | .plain v => v == .text f.home
  | .function _ => false

/-- The functions of the module that declare rules and belong to it. Mirrors `_module_rules`. -/
def declaring (m : HostModule) : List HostFunction :=
  m.orderedMembers.filterMap fun e => match e.2 with
    | .function f => if f.declaration.isSome && m.isHomeOf f then some f else none
    | .plain _ => none

end HostModule

end RuleEngine
