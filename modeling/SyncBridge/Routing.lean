import SyncBridge.Entities
import SyncBridge.PosixPaths

/-!
# Destination of a transfer

`RoutingService`: the first rule that matches a transfer gives its bucket and key
prefix. The key is the prefix, the username and the virtual path in one string.
-/

namespace Routing

open Entities PosixPaths

structure RouteTarget where
  bucket : String
  key : String
  deriving DecidableEq, Repr

/-- A field that is absent or empty does not restrict the rule. -/
def present (field : Option String) : Option String :=
  match field with
  | some s => if s = "" then none else some s
  | none => none

/-- The extension a rule asks for, with one leading dot removed and one added. -/
def wantedExtension (toLowerCase : String → String) (extension : String) : List Char :=
  '.' :: match (toLowerCase extension).toList with
    | '.' :: rest => rest
    | cs => cs

def matchesRule (toLowerCase : String → String) (rule : RoutingRule) (t : FileTransfer) : Bool :=
  (match present rule.username with
    | none => true
    | some u => u == t.username) &&
  (match present rule.extension with
    | none => true
    | some e => (toLowerCase (String.ofList (extname t.filename.toList))).toList ==
        wantedExtension toLowerCase e) &&
  (match present rule.pathPrefix with
    | none => true
    | some p => p.toList.isPrefixOf t.virtualPath.toList)

/-- `virtualPath.replace(/^\/+/, '')`. -/
def relativePath (virtualPath : String) : String :=
  String.ofList (virtualPath.toList.dropWhile (· == '/'))

def resolve (toLowerCase : String → String) (defaultBucket : String) (rules : List RoutingRule)
    (t : FileTransfer) : RouteTarget :=
  let rule := rules.find? fun r => matchesRule toLowerCase r t
  { bucket := ((rule.bind (·.bucket)).bind fun b => present (some b)).getD defaultBucket
    key := (rule.bind (·.keyPrefix)).getD "" ++ t.username ++ "/" ++ relativePath t.virtualPath }

end Routing
