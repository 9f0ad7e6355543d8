import XmlTidy.Printing.Fragment

/-!
Clustering the children of an element whose whitespace may be reflowed. Each child takes a line of its
own, except that a blank line between two children is kept, that text and references that follow
each other flow together, and that a comment stays on the line of what precedes it, be it a sibling or
the open tag.
-/

namespace XmlTidy

inductive ClusterStyle where
  | plain
  | group
  | fill
deriving DecidableEq, Repr

/-- Children that are laid out together, behind forced line breaks. -/
structure Cluster where
  style : ClusterStyle
  leading : List Doc
  parts : List Doc
deriving Repr

namespace Cluster

def layout (c : Cluster) : Doc :=
  let body :=
    match c.style with
    | .plain => Doc.concat c.parts
    | .group => .grouped (.concat c.parts)
    | .fill => .grouped (.fill c.parts)
  .concat (c.leading ++ [body])

def extend (c : Cluster) (parts : List Doc) : Cluster :=
  { c with parts := c.parts ++ parts }

/-- A cluster whose parts have to share a line if they can. -/
def joined (c : Cluster) : Cluster :=
  if c.style = .plain then { c with style := .group } else c

end Cluster

/-- The clusters so far, the last one first; the comments attached to the open tag; the last fragment,
and the last one that was more than a hint. -/
structure Clustering where
  clusters : List Cluster := []
  attached : List Doc := []
  previous : Option Fragment := none
  emitted : Option Fragment := none
deriving Repr

namespace Clustering

/-- What separates a fragment from the one before it: a line if there was whitespace. -/
def delimiter (s : Clustering) : Doc :=
  match s.previous with
  | some f => if f.isBlank || f.endsBlank then .spaceLine else .softLine
  | none => .softLine

def inlineStyle (f : Fragment) : ClusterStyle :=
  if f.isInline then .fill else .plain

def start (s : Clustering) (style : ClusterStyle) (leading parts : List Doc) : Clustering :=
  { s with clusters := ⟨style, leading, parts⟩ :: s.clusters }

/-- Adds to the last cluster; `other` says what to do if there is none. -/
def amend (s : Clustering) (change : Cluster → Cluster) (other : Clustering) : Clustering :=
  match s.clusters with
  | c :: rest => { s with clusters := change c :: rest }
  | [] => other

/-- Whether a blank line stands in front of a fragment. -/
def leavesLine (s : Clustering) (f : Fragment) : Bool :=
  match s.emitted with
  | some e => e.endLine + 2 ≤ f.startLine
  | none => false

/-- Whether a fragment is the first on its line. -/
def startsLine (s : Clustering) : Bool :=
  match s.previous with
  | some f => f.isBlank && f.hasNewline
  | none => false

/-- Whether text flows into a fragment. -/
def flows (s : Clustering) (f : Fragment) : Bool :=
  match s.emitted, s.clusters with
  | some e, c :: _ => f.isInline && e.isInline && c.style = .fill
  | _, _ => false

def addComment (s : Clustering) (f : Fragment) : Clustering :=
  if s.startsLine then s.start .plain [.hardLine] [f.printed]
  else
    let comment := [s.delimiter, f.printed]
    let apart := s.start .group [] comment
    match s.emitted with
    | none =>
        { s with
          attached :=
            s.attached ++ [.ifBreak (.grouped (.indent (.concat comment))) (.concat comment)] }
    | some e =>
        if e.kind = .element && !e.isClosed then s.amend (fun c => c.joined.extend comment) apart
        else apart

def place (s : Clustering) (f : Fragment) : Clustering :=
  let alone := s.start (inlineStyle f) [.hardLine] [f.printed]
  if s.leavesLine f then s.start (inlineStyle f) [.hardLine, .hardLine] [f.printed]
  else if f.kind = .comment then s.addComment f
  else if s.flows f then s.amend (·.extend [s.delimiter, f.printed]) alone
  else alone

def add (s : Clustering) (f : Fragment) : Clustering :=
  if f.isBlank then { s with previous := some f }
  else { s.place f with previous := some f, emitted := some f }

def ofFragments (fragments : List Fragment) : Clustering :=
  fragments.foldl add {}

/-- The clusters in order. -/
def ordered (s : Clustering) : List Cluster :=
  s.clusters.reverse

end Clustering

end XmlTidy
