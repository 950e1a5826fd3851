import S3s.AwsChunked.Chunks
import S3s.AwsChunked.Authenticity
import S3s.AwsChunked.Truncation
import S3s.AwsChunked.Resumption
import S3s.AwsChunked.RoundTrip
import S3s.Upload.Stream
import S3s.Upload.Verification
import S3s.Http.Body
import S3s.Http.EndStream
import S3s.Http.Request
import S3s.Ops.Signature
import S3s.Ops.HeaderAuth
import S3s.Ops.Prepare
import S3s.Ops.FullBody
import S3s.Library.Search
import S3s.FormData.Buffer
import S3s.FormData.Delimiter
import S3s.FormData.Header
import S3s.FormData.Parser
import S3s.FormData.Grammar
import S3s.FormData.Reading
import S3s.FormData.Runs
import S3s.FormData.Splitting
import S3s.FormData.Waiting
import S3s.FormData.Drivers
import S3s.FormData.Padding
import S3s.FormData.Schedule
import S3s.FormData.Encoding
import S3s.FormData.Callers
import S3s.FormData.PartStream
import S3s.FormData.HandOver
import S3s.FormData.ClosingTrailer
import S3s.FormData.Accounting
import S3s.FormData.ContentDisposition
import S3s.Http.Multipart
import S3s.Http.FormLength
import S3s.Library.Delimited
import S3s.SigV4.Decodability
import S3s.Ops.RawPath
import S3s.Ops.Presigned
import S3s.Ops.SignedHeaders
import S3s.Library.Sorted
import S3s.Ops.Anonymous
import S3s.Library.Text
import S3s.Routing.Path
import S3s.Routing.Host
import S3s.Routing.Operation
import S3s.Routing.Router
import S3s.Ops.Target
import S3s.Ops.Binding
import S3s.Library.Base64
import S3s.SigV2.Methods
import S3s.SigV2.StringToSign
import S3s.Library.Json
import S3s.PostPolicy.Policy
import S3s.Ops.SigV2
import S3s.Ops.PostSignature
import S3s.Ops.ReplayWindows
import S3s.Ops.SubResource
import S3s.Routing.Addressing
import S3s.Xml.Deserializer
import S3s.Xml.CharacterData
import S3s.Xml.Serializer
import S3s.EventStream.Message
import S3s.EventStream.Wrapper
import S3s.Library.Utf8
import S3s.Rfc2047.Codec
import S3s.Rfc2047.RoundTrip
import S3s.Http.Metadata
import S3s.Policy.Statement
import S3s.Fs.Layout
import S3s.PostPolicy.Validation
import S3s.Ops.PostObject
import S3s.Library.BitMask
import S3s.Library.Grouping
import S3s.Routing.Plan
import S3s.Routing.Dispatcher
import S3s.Routing.FirstMatch
import S3s.Http.BodyLimit
import S3s.Library.FileCalls
import S3s.Library.Programs
import S3s.Fs.Store
import S3s.Fs.Files
import S3s.Fs.Objects
import S3s.Fs.Uploads
import S3s.Fs.Listing
import S3s.Fs.ListingSpec
import S3s.Fs.Codecs
import S3s.Fs.Pagination
import S3s.Fs.Effects
import S3s.Fs.Requests
import S3s.Fs.Footprints
import S3s.Fs.PartOwnership
import S3s.Fs.Receiving
import S3s.Fs.Updates
import S3s.Fs.Outcomes
import S3s.Fs.ObjectOutcomes
import S3s.Library.Decimal
import S3s.AwsChunked.MetaGrammar
import S3s.AwsChunked.TrailerText
import S3s.FormData.HeaderLines
import S3s.FormData.DispositionText
import S3s.SigV4.QueryOrder
import S3s.Library.Words
import S3s.SigV4.HeaderBlock
import S3s.SigV4.AuthorizationText
import S3s.Fs.PartRuns
import S3s.Fs.CopyOutcomes
import S3s.Fs.Steps
import S3s.Fs.UploadOwners
import S3s.Fs.BucketRuns
import S3s.Fs.Rejections
import S3s.Fs.Conditional
import S3s.Rfc2047.EncodedWords
import S3s.Dto.Timestamp
import S3s.Library.Glob
import S3s.Policy.Pattern
import S3s.Policy.PatternCharacters
import S3s.Http.KeepAlive
import S3s.Dto.CopySource
import S3s.Xml.ETags
import S3s.Xml.Incoming
import S3s.Xml.Structure
import S3s.Xml.Contents
import S3s.Xml.UnknownElements
import S3s.Fs.RangedReads
import S3s.Fs.Assembly
import S3s.Fs.ChecksumVerdicts
import S3s.Fs.ObjectMap
import S3s.Fs.ObjectRuns
import S3s.Fs.Restart
import S3s.Fs.ListingRuns
import S3s.Fs.SignedUploads
import S3s.Xml.BodyRoundTrip
import S3s.Policy.Document
