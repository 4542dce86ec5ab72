import WordMachine.Journal

/-!
# Program images

An image is a file of code units, least significant byte first, no longer than the address space.
-/

namespace WordMachine

inductive ImageError where
  | file (error : FileError)
  | tooLarge (size : Nat)
  deriving DecidableEq, Repr

def ImageError.message : ImageError → String
  | .file error => error.message
  | .tooLarge size => s!"program image too large: {size} words (max {numAddresses})"

namespace Image

/-- The units of an image; a byte left over at the end is dropped. -/
def unpack (bs : Bytes) : Except ImageError (List Word) :=
  if numAddresses < bs.length / 2 then .error (.tooLarge (bs.length / 2))
  else .ok (Word.unpack bs)

end Image

/-- The image in a file, which is named as `shown` in what is said about it; with `verbose` its
size is also printed. -/
def Host.readImage (h : Host) (shown : String) (verbose : Bool) :
    Host × String × Except ImageError (List Word) :=
  match h.files.readFile (Path.ofString shown) with
  | .error e => (h, "", .error (.file e))
  | .ok bs =>
      match Image.unpack bs with
      | .error e => (h, "", .error e)
      | .ok words =>
          let h :=
            if bs.length % 2 = 1 then
              h.log .warning .image (shown ++ " has an odd length; ignoring trailing byte")
            else h
          let printed := if verbose then s!"[IMG] {shown}: {words.length} words\n" else ""
          (h.log .debug .image s!"loaded {words.length} words from {shown}", printed, .ok words)

end WordMachine
