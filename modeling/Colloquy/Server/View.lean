import Colloquy.Server.Basic

/-! # A view of an open document

What a request sees of a document: its snapshot, its place on the host and its configuration.
-/

namespace Colloquy

/-- An open document during one request. -/
structure DocumentView where
  uri : Bytes
  /-- Empty when the document is no file. -/
  path : Bytes
  /-- Empty when the document is no file. -/
  dir : Bytes
  snapshot : Snapshot
  lines : LineIndex
  host : Host
  resolver : Resolver

namespace DocumentView

def text (v : DocumentView) : Bytes := v.snapshot.text

def outline (v : DocumentView) : Outline := v.snapshot.outline

def resolution (v : DocumentView) : Resolution :=
  let d := v.snapshot.document
  v.resolver.resolve v.host v.dir v.path d.headerText d.headerStart

def headerLayer (v : DocumentView) : Layer :=
  let d := v.snapshot.document
  Resolver.headerLayer v.path d.headerText d.headerStart

def offset (v : DocumentView) (p : Position) : Nat := v.lines.offset p

def range (v : DocumentView) (e : Extent) : Range := v.lines.range (Span.of e.start e.stop)

def edit (v : DocumentView) (e : Extent) (newText : Bytes) : Wire.WorkspaceEdit :=
  .single v.uri ⟨v.range e, newText⟩

def fileLocation? (host : Host) (files : FileSet) (d : Declaration) : Option Wire.Location :=
  if d.source.path.isEmpty then none
  else (files.get? host d.source.path).map fun f => ⟨Uri.ofPath host.cwd f.path, f.range d.span⟩

/-- Where a declaration is: in this document for the header's, in its file for any other. -/
def locate? (v : DocumentView) (d : Declaration) : Option Wire.Location :=
  match d.source.kind with
  | .header => some ⟨v.uri, v.lines.range d.span⟩
  | _ => fileLocation? v.host v.resolution.files d

/-- The document with its configuration, ready to be checked. -/
def subject (v : DocumentView) : Subject where
  document := v.snapshot.document
  outline := v.snapshot.outline
  outer := (v.resolver.chain v.host v.dir).layers
  header := v.headerLayer

end DocumentView

namespace Server

def viewOf (s : Server) (host : Host) (d : OpenDocument) : DocumentView × Server :=
  let (snapshot, cache) := s.cache.get d.uri d.version d.text
  ({ uri := d.uri
     path := (Uri.path? host.cwd d.uri).getD []
     dir := Uri.directory host.cwd d.uri
     snapshot
     lines := LineIndex.ofText d.text
     host
     resolver := s.resolver }, { s with cache })

/-- The view of an open document, in any spelling of its address. -/
def view? (s : Server) (host : Host) (uri : Bytes) : Option (DocumentView × Server) :=
  (s.document? (Uri.canonical host.cwd uri)).map (s.viewOf host)

end Server

end Colloquy
