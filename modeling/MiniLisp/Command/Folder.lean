/-!
# Files

A script is found in a folder by its path. `Entry.read` gives the text of a file, or says why it
cannot be read.
-/

namespace MiniLisp

inductive ReadError where
  | notFound
  | notAFolder
  | isAFolder
  | nameTooLong
  | notText
  | other (message : String)
  deriving DecidableEq

def ReadError.message : ReadError → String
  | notFound => "No such file or directory (os error 2)"
  | notAFolder => "Not a directory (os error 20)"
  | isAFolder => "Is a directory (os error 21)"
  | nameTooLong => "File name too long (os error 36)"
  | notText => "stream did not contain valid UTF-8"
  | other message => message

/-- A file with its bytes, or a folder with its entries. -/
inductive Entry where
  | file (bytes : ByteArray)
  | folder (entries : List (String × Entry))

namespace Entry

def emptyFolder : Entry := folder []

def child? (name : String) (entries : List (String × Entry)) : Option Entry :=
  entries.lookup name

/-- Follows the parts of a path from an entry. `around` are the folders around it, nearest first;
outside them there are folders of which nothing is known. -/
def follow (current : Entry) (around : List Entry) : List String → Except ReadError Entry
  | [] => .ok current
  | part :: rest =>
    match current with
    | file _ => .error .notAFolder
    | folder entries =>
      if part = "" ∨ part = "." then follow current around rest
      else if part = ".." then
        match around with
        | [] => follow emptyFolder [] rest
        | outer :: around => follow outer around rest
      else if 255 < part.utf8ByteSize then .error .nameTooLong
      else match child? part entries with
        | some entry => follow entry (current :: around) rest
        | none => .error .notFound

/-- The entry at a path, which is absolute if it starts with a slash. -/
def find (working : Entry) (path : String) : Except ReadError Entry :=
  if 4095 < path.utf8ByteSize then .error .nameTooLong
  else follow (if path.startsWith "/" then emptyFolder else working) [] (path.splitOn "/")

def decode (bytes : ByteArray) : Except ReadError String :=
  match String.fromUTF8? bytes with
  | some text => .ok text
  | none => .error .notText

def read (working : Entry) (path : String) : Except ReadError String := do
  match ← working.find path with
  | file bytes => decode bytes
  | folder _ => .error .isAFolder

end Entry

end MiniLisp
