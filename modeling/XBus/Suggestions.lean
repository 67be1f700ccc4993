import XBus.Identity
import Mathlib.Data.List.DropRight

/-!
# Suggested session names

The last part of `identity/session-name.ts`: an arbitrary label is brought into the grammar of
session names by four rewrites, and a session gets the first of its candidates that is a name after
that.
-/

set_option autoImplicit false

namespace XBus

/-- `[a-z0-9._-]` -/
def isSafeChar (c : Char) : Bool := isLowerAlnum c || c = '.' || c = '_' || c = '-'

/-- `[-._]` -/
def isSeparator (c : Char) : Bool := c = '-' || c = '.' || c = '_'

/-- `replace(/[^a-z0-9._-]+/g, '-')`; `inRun` says that the character before was unsafe. -/
def collapse (inRun : Bool) : List Char → List Char
  | [] => []
  | c :: cs =>
    if isSafeChar c then c :: collapse false cs
    else if inRun then collapse true cs
    else '-' :: collapse true cs

/-- `replace(/^[^a-z0-9]+/, '')` -/
def dropLeading (cs : List Char) : List Char := cs.dropWhile fun c => !isLowerAlnum c

/-- `replace(/[-._]+$/, '')` -/
def trimTrailing (cs : List Char) : List Char := cs.rdropWhile isSeparator

def SESSION_NAME_MIN : Nat := 2
def SESSION_NAME_MAX : Nat := 48

def sanitizeToSessionName (text : Text) (raw : String) : Option String :=
  let s := trimTrailing (dropLeading (collapse false (text.toLowerCase (text.nfc raw)).toList))
  let s := if s.length > SESSION_NAME_MAX then trimTrailing (s.take SESSION_NAME_MAX) else s
  if s.length < SESSION_NAME_MIN then none
  else if matchesSessionName (String.ofList s) then some (String.ofList s)
  else none

def isValidSessionName (text : Text) (raw : String) : Bool := (validateSessionName text raw).isOk

structure NameSuggestionInputs where
  savedName : Option String := none
  gitRepo : Option String := none
  dirName : Option String := none
  agentType : Option String := none
  projectId : Option String := none
deriving DecidableEq, Repr

/-- `` inp.agentType && inp.projectId ? `${agentType}-${projectId}` : undefined `` -/
def fallbackName (inp : NameSuggestionInputs) : Option String :=
  match inp.agentType, inp.projectId with
  | some agent, some project =>
    if agent ≠ "" ∧ project ≠ "" then some (agent ++ "-" ++ project) else none
  | _, _ => none

/-- One round of the loop: nothing where the candidate is skipped. -/
def suggestionFrom (text : Text) (candidate : Option String) : Option String :=
  match candidate with
  | none => none
  | some c =>
    if c = "" then none
    else match sanitizeToSessionName text c with
      | none => none
      | some s => if isValidSessionName text s then some s else none

def suggestSessionName (text : Text) (inp : NameSuggestionInputs) : Option String :=
  [inp.savedName, inp.gitRepo, inp.dirName, fallbackName inp].findSome? (suggestionFrom text)

end XBus
