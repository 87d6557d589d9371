/-!
# Powers

The widths of words and the scales of decimals are powers of natural numbers and integers.  In this
library `^` stands for the power of the core library there, also where an import offers another.
-/

attribute [instance (high), default_instance 20000] instPowNat
