/-!
# What the operating system refuses

The reasons for which a file or a directory cannot be used, and their wording. Most have a number.
What is written to an open file or to a stream may be refused when a part of it is there already
(`Sink`).
-/

namespace OpacityMigration.FileSystem

/-- Why a file, a directory or a stream cannot be used. -/
inductive Fault
  | notFound
  | permissionDenied
  | notDirectory
  | isDirectory
  | noSpace
  | brokenPipe
  | nameTooLong
  | tooManyLinks
  /-- The content of a file is no text. -/
  | notText
  /-- A path holds a zero byte. -/
  | nulInName
deriving DecidableEq, Repr

/-- A wording with a number. -/
def numbered (text : String) (number : Nat) : String :=
  text ++ " (os error " ++ toString number ++ ")"

def Fault.message : Fault → String
  | .notFound => numbered "No such file or directory" 2
  | .permissionDenied => numbered "Permission denied" 13
  | .notDirectory => numbered "Not a directory" 20
  | .isDirectory => numbered "Is a directory" 21
  | .noSpace => numbered "No space left on device" 28
  | .brokenPipe => numbered "Broken pipe" 32
  | .nameTooLong => numbered "File name too long" 36
  | .tooManyLinks => numbered "Too many levels of symbolic links" 40
  | .notText => "stream did not contain valid UTF-8"
  | .nulInName => "file name contained an unexpected NUL byte"

/-- How an open file or a stream takes the bytes that are written to it. -/
inductive Sink
  | works
  /-- So many bytes are taken; one more, and writing fails. -/
  | breaks (bytes : Nat) (fault : Fault)
deriving DecidableEq, Repr

namespace Sink

/-- There is no room. -/
def full : Sink := .breaks 0 .noSpace

/-- Nobody reads. -/
def closed : Sink := .breaks 0 .brokenPipe

/-- What is there once `bytes` were written, all of them or as many as are taken. -/
def taken (sink : Sink) (bytes : List UInt8) : List UInt8 :=
  match sink with
  | .works => bytes
  | .breaks n _ => bytes.take n

/-- Why `bytes` cannot all be written. -/
def fault? (sink : Sink) (bytes : List UInt8) : Option Fault :=
  match sink with
  | .works => none
  | .breaks n fault => if bytes.length ≤ n then none else some fault

end Sink

end OpacityMigration.FileSystem
