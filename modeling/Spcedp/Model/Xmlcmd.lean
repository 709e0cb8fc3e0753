import Spcedp.Model.PyText

/-!
# XML requests and replies

`spcedp/xmlcmd.py`. `expat` is not part of the repository: what it makes of a reply is
the parameter `expat`, one of the outcomes that `ExpatResult` lists.
-/

set_option autoImplicit false

namespace Spcedp.Xmlcmd

open Spcedp.PyText

@[simp] abbrev fragFirst : UInt8 := 0x01
@[simp] abbrev fragCont : UInt8 := 0x02
@[simp] abbrev maxReplyBytes : ℕ := 2 ^ 20

inductive AttrValue
  | str (s : Text)
  | int (n : ℤ)
  | none
  deriving DecidableEq, Repr

/-- The attributes of one element, in document order. -/
abbrev Row := List (Text × Text)

/-- `row.get(name)`. -/
def Row.get (row : Row) (name : Text) : Option Text :=
  (row.find? fun attr => attr.1 = name).map Prod.snd

/-- A parsed reply: for each section tag its rows. -/
abbrev XmlReply := List (Text × List Row)

instance : DecidableEq XmlReply := @instDecidableEqList (Text × List Row) inferInstance

/-- `reply.get(section, [])`. -/
def XmlReply.get (reply : XmlReply) (tag : Text) : List Row :=
  ((reply.find? fun s => s.1 = tag).map Prod.snd).getD []

/-! ## Requests -/

/-- `data.replace(c, by)` for a single character. -/
def replaceChar (c : ℕ) (by_ : Text) (data : Text) : Text :=
  data.flatMap fun x => if x = c then by_ else [x]

/-- `xml.sax.saxutils.quoteattr`. -/
def quoteattr (data : Text) : Text :=
  let data := replaceChar 0x26 (text "&amp;") data
  let data := replaceChar 0x3E (text "&gt;") data
  let data := replaceChar 0x3C (text "&lt;") data
  let data := replaceChar 0x0A (text "&#10;") data
  let data := replaceChar 0x0D (text "&#13;") data
  let data := replaceChar 0x09 (text "&#9;") data
  if 0x22 ∈ data then
    if 0x27 ∈ data then [0x22] ++ replaceChar 0x22 (text "&quot;") data ++ [0x22]
    else [0x27] ++ data ++ [0x27]
  else [0x22] ++ data ++ [0x22]

/-- What `buildRequest` raises: `TypeError` for an attribute with the name of one of its own
parameters, and `ValueError` for a number with too many digits and for text that is not ASCII
(`UnicodeEncodeError`). -/
inductive BuildError
  | keywordTwice
  | intLimit
  | notAscii
  deriving DecidableEq, Repr

/-- One attribute of the request; nothing for `None`. -/
def buildAttr (name : Text) : AttrValue → Except BuildError Text
  | .none => .ok []
  | .str s => .ok ([0x20] ++ upper name ++ [0x3D] ++ quoteattr s)
  | .int n =>
      match pyStr n with
      | some s => .ok ([0x20] ++ upper name ++ [0x3D] ++ quoteattr s)
      | none => .error .intLimit

/-- The names of the parameters of `build_request`: no attribute can have them. -/
def ownParameters : List Text := [text "command_id", text "continuation"]

def buildRequest (commandId : Text) (continuation : Bool) (attrs : List (Text × AttrValue)) :
    Except BuildError (List UInt8) := do
  if attrs.any fun a => ownParameters.any (· = a.1) then throw .keywordTwice
  let marker := if continuation then fragCont else fragFirst
  let extra ← attrs.mapM fun a => buildAttr a.1 a.2
  let xml := text "<COMMAND ID=" ++ quoteattr commandId ++ extra.flatten ++ text " />"
  match encodeAscii xml with
  | some bytes => return marker :: bytes
  | none => throw .notAscii

/-! ## Reassembly -/

/-- The `ValueError`s of the reply side. -/
inductive ReplyError
  | tooLong
  | dtd
  | malformed
  | wrongRoot (tag : Text)
  | unsupportedEncoding
  deriving DecidableEq, Repr

/-- `b"</COMMAND_REPLY>"`. -/
def closingTag : List UInt8 := (text "</COMMAND_REPLY>").map UInt8.ofNat

/-- `ReplyAssembler.feed` with the buffer passed along: the new buffer, and the complete
reply if there is one. -/
def assemble (buf payload : List UInt8) : Except ReplyError (List UInt8 × Option (List UInt8)) :=
  match payload with
  | [] => .ok (buf, none)
  | _ :: piece =>
      let buf := buf ++ piece
      if buf.length > maxReplyBytes then .error .tooLong
      else if occursIn closingTag buf then .ok ([], some buf)
      else .ok (buf, none)

/-! ## Parsing -/

/-- An element of the tree that `expat` reports. -/
inductive Element
  | node (tag : Text) (attrib : Row) (children : List Element)

def Element.tag : Element → Text
  | .node tag _ _ => tag

def Element.attrib : Element → Row
  | .node _ attrib _ => attrib

def Element.children : Element → List Element
  | .node _ _ children => children

/-- What `expat` does on a reply: report one document, call the handler for a document
type declaration, or raise. -/
inductive ExpatResult
  | document (root : Element)
  | doctype
  | expatError
  | valueError
  | lookupError

/-- What `parseReply` raises. -/
inductive ParseError
  | valueError (e : ReplyError)
  | lookupError
  deriving DecidableEq, Repr

/-- `dict` assignment: a tag that is there already keeps its place. -/
def setSection (out : XmlReply) (tag : Text) (rows : List Row) : XmlReply :=
  if out.any (·.1 = tag) then out.map fun s => if s.1 = tag then (tag, rows) else s
  else out ++ [(tag, rows)]

def parseReply (expat : List UInt8 → ExpatResult) (xmlBytes : List UInt8) :
    Except ParseError XmlReply :=
  match expat xmlBytes with
  | .doctype => .error (.valueError .dtd)
  | .expatError => .error (.valueError .malformed)
  | .valueError => .error (.valueError .unsupportedEncoding)
  | .lookupError => .error .lookupError
  | .document root =>
      if root.tag ≠ text "COMMAND_REPLY" then .error (.valueError (.wrongRoot root.tag))
      else
        .ok (root.children.foldl (fun out sect =>
          let rows := sect.children.map Element.attrib
          setSection out sect.tag (if rows = [] then [sect.attrib] else rows)) [])

end Spcedp.Xmlcmd
