import S3s.Library.Bytes

/-! # Operations

The operations of the service, each with the name a client may declare it by.
-/
namespace S3s.Routing

/-- `Operation` -/
inductive Operation where
  | abortMultipartUpload | completeMultipartUpload | copyObject | createBucket
  | createBucketMetadataConfiguration | createBucketMetadataTableConfiguration
  | createMultipartUpload | createSession | deleteBucket | deleteBucketAnalyticsConfiguration
  | deleteBucketCors | deleteBucketEncryption | deleteBucketIntelligentTieringConfiguration
  | deleteBucketInventoryConfiguration | deleteBucketLifecycle | deleteBucketMetadataConfiguration
  | deleteBucketMetadataTableConfiguration | deleteBucketMetricsConfiguration
  | deleteBucketOwnershipControls | deleteBucketPolicy | deleteBucketReplication
  | deleteBucketTagging | deleteBucketWebsite | deleteObject | deleteObjectAnnotationOp
  | deleteObjectTagging | deleteObjects | deletePublicAccessBlock | getBucketAbac
  | getBucketAccelerateConfiguration | getBucketAcl | getBucketAnalyticsConfiguration
  | getBucketCors | getBucketEncryption | getBucketIntelligentTieringConfiguration
  | getBucketInventoryConfiguration | getBucketLifecycleConfiguration | getBucketLocation
  | getBucketLogging | getBucketMetadataConfiguration | getBucketMetadataTableConfiguration
  | getBucketMetricsConfiguration | getBucketNotificationConfiguration | getBucketOwnershipControls
  | getBucketPolicy | getBucketPolicyStatus | getBucketReplication | getBucketRequestPayment
  | getBucketTagging | getBucketVersioning | getBucketWebsite | getObject | getObjectAcl
  | getObjectAnnotationOp | getObjectAttributes | getObjectLegalHold | getObjectLockConfiguration
  | getObjectRetention | getObjectTagging | getObjectTorrent | getPublicAccessBlock | headBucket
  | headObject | listBucketAnalyticsConfigurations | listBucketIntelligentTieringConfigurations
  | listBucketInventoryConfigurations | listBucketMetricsConfigurations | listBuckets
  | listDirectoryBuckets | listMultipartUploads | listObjectAnnotations | listObjectVersions
  | listObjects | listObjectsV2 | listParts | listenBucketNotification | postObject | putBucketAbac
  | putBucketAccelerateConfiguration | putBucketAcl | putBucketAnalyticsConfiguration
  | putBucketCors | putBucketEncryption | putBucketIntelligentTieringConfiguration
  | putBucketInventoryConfiguration | putBucketLifecycleConfiguration | putBucketLogging
  | putBucketMetricsConfiguration | putBucketNotificationConfiguration | putBucketOwnershipControls
  | putBucketPolicy | putBucketReplication | putBucketRequestPayment | putBucketTagging
  | putBucketVersioning | putBucketWebsite | putObject | putObjectAcl | putObjectAnnotationOp
  | putObjectLegalHold | putObjectLockConfiguration | putObjectRetention | putObjectTagging
  | putPublicAccessBlock | renameObject | restoreObject | selectObjectContent
  | updateBucketMetadataAnnotationTableConfiguration
  | updateBucketMetadataInventoryTableConfiguration | updateBucketMetadataJournalTableConfiguration
  | updateObjectEncryption | uploadPart | uploadPartCopy | writeGetObjectResponse
deriving DecidableEq

/-- `Operation::name` -/
def Operation.name : Operation → Bytes
  | .abortMultipartUpload => ascii "AbortMultipartUpload"
  | .completeMultipartUpload => ascii "CompleteMultipartUpload"
  | .copyObject => ascii "CopyObject"
  | .createBucket => ascii "CreateBucket"
  | .createBucketMetadataConfiguration => ascii "CreateBucketMetadataConfiguration"
  | .createBucketMetadataTableConfiguration => ascii "CreateBucketMetadataTableConfiguration"
  | .createMultipartUpload => ascii "CreateMultipartUpload"
  | .createSession => ascii "CreateSession"
  | .deleteBucket => ascii "DeleteBucket"
  | .deleteBucketAnalyticsConfiguration => ascii "DeleteBucketAnalyticsConfiguration"
  | .deleteBucketCors => ascii "DeleteBucketCors"
  | .deleteBucketEncryption => ascii "DeleteBucketEncryption"
  | .deleteBucketIntelligentTieringConfiguration => ascii "DeleteBucketIntelligentTieringConfiguration"
  | .deleteBucketInventoryConfiguration => ascii "DeleteBucketInventoryConfiguration"
  | .deleteBucketLifecycle => ascii "DeleteBucketLifecycle"
  | .deleteBucketMetadataConfiguration => ascii "DeleteBucketMetadataConfiguration"
  | .deleteBucketMetadataTableConfiguration => ascii "DeleteBucketMetadataTableConfiguration"
  | .deleteBucketMetricsConfiguration => ascii "DeleteBucketMetricsConfiguration"
  | .deleteBucketOwnershipControls => ascii "DeleteBucketOwnershipControls"
  | .deleteBucketPolicy => ascii "DeleteBucketPolicy"
  | .deleteBucketReplication => ascii "DeleteBucketReplication"
  | .deleteBucketTagging => ascii "DeleteBucketTagging"
  | .deleteBucketWebsite => ascii "DeleteBucketWebsite"
  | .deleteObject => ascii "DeleteObject"
  | .deleteObjectAnnotationOp => ascii "DeleteObjectAnnotation"
  | .deleteObjectTagging => ascii "DeleteObjectTagging"
  | .deleteObjects => ascii "DeleteObjects"
  | .deletePublicAccessBlock => ascii "DeletePublicAccessBlock"
  | .getBucketAbac => ascii "GetBucketAbac"
  | .getBucketAccelerateConfiguration => ascii "GetBucketAccelerateConfiguration"
  | .getBucketAcl => ascii "GetBucketAcl"
  | .getBucketAnalyticsConfiguration => ascii "GetBucketAnalyticsConfiguration"
  | .getBucketCors => ascii "GetBucketCors"
  | .getBucketEncryption => ascii "GetBucketEncryption"
  | .getBucketIntelligentTieringConfiguration => ascii "GetBucketIntelligentTieringConfiguration"
  | .getBucketInventoryConfiguration => ascii "GetBucketInventoryConfiguration"
  | .getBucketLifecycleConfiguration => ascii "GetBucketLifecycleConfiguration"
  | .getBucketLocation => ascii "GetBucketLocation"
  | .getBucketLogging => ascii "GetBucketLogging"
  | .getBucketMetadataConfiguration => ascii "GetBucketMetadataConfiguration"
  | .getBucketMetadataTableConfiguration => ascii "GetBucketMetadataTableConfiguration"
  | .getBucketMetricsConfiguration => ascii "GetBucketMetricsConfiguration"
  | .getBucketNotificationConfiguration => ascii "GetBucketNotificationConfiguration"
  | .getBucketOwnershipControls => ascii "GetBucketOwnershipControls"
  | .getBucketPolicy => ascii "GetBucketPolicy"
  | .getBucketPolicyStatus => ascii "GetBucketPolicyStatus"
  | .getBucketReplication => ascii "GetBucketReplication"
  | .getBucketRequestPayment => ascii "GetBucketRequestPayment"
  | .getBucketTagging => ascii "GetBucketTagging"
  | .getBucketVersioning => ascii "GetBucketVersioning"
  | .getBucketWebsite => ascii "GetBucketWebsite"
  | .getObject => ascii "GetObject"
  | .getObjectAcl => ascii "GetObjectAcl"
  | .getObjectAnnotationOp => ascii "GetObjectAnnotation"
  | .getObjectAttributes => ascii "GetObjectAttributes"
  | .getObjectLegalHold => ascii "GetObjectLegalHold"
  | .getObjectLockConfiguration => ascii "GetObjectLockConfiguration"
  | .getObjectRetention => ascii "GetObjectRetention"
  | .getObjectTagging => ascii "GetObjectTagging"
  | .getObjectTorrent => ascii "GetObjectTorrent"
  | .getPublicAccessBlock => ascii "GetPublicAccessBlock"
  | .headBucket => ascii "HeadBucket"
  | .headObject => ascii "HeadObject"
  | .listBucketAnalyticsConfigurations => ascii "ListBucketAnalyticsConfigurations"
  | .listBucketIntelligentTieringConfigurations => ascii "ListBucketIntelligentTieringConfigurations"
  | .listBucketInventoryConfigurations => ascii "ListBucketInventoryConfigurations"
  | .listBucketMetricsConfigurations => ascii "ListBucketMetricsConfigurations"
  | .listBuckets => ascii "ListBuckets"
  | .listDirectoryBuckets => ascii "ListDirectoryBuckets"
  | .listMultipartUploads => ascii "ListMultipartUploads"
  | .listObjectAnnotations => ascii "ListObjectAnnotations"
  | .listObjectVersions => ascii "ListObjectVersions"
  | .listObjects => ascii "ListObjects"
  | .listObjectsV2 => ascii "ListObjectsV2"
  | .listParts => ascii "ListParts"
  | .listenBucketNotification => ascii "ListenBucketNotification"
  | .postObject => ascii "PostObject"
  | .putBucketAbac => ascii "PutBucketAbac"
  | .putBucketAccelerateConfiguration => ascii "PutBucketAccelerateConfiguration"
  | .putBucketAcl => ascii "PutBucketAcl"
  | .putBucketAnalyticsConfiguration => ascii "PutBucketAnalyticsConfiguration"
  | .putBucketCors => ascii "PutBucketCors"
  | .putBucketEncryption => ascii "PutBucketEncryption"
  | .putBucketIntelligentTieringConfiguration => ascii "PutBucketIntelligentTieringConfiguration"
  | .putBucketInventoryConfiguration => ascii "PutBucketInventoryConfiguration"
  | .putBucketLifecycleConfiguration => ascii "PutBucketLifecycleConfiguration"
  | .putBucketLogging => ascii "PutBucketLogging"
  | .putBucketMetricsConfiguration => ascii "PutBucketMetricsConfiguration"
  | .putBucketNotificationConfiguration => ascii "PutBucketNotificationConfiguration"
  | .putBucketOwnershipControls => ascii "PutBucketOwnershipControls"
  | .putBucketPolicy => ascii "PutBucketPolicy"
  | .putBucketReplication => ascii "PutBucketReplication"
  | .putBucketRequestPayment => ascii "PutBucketRequestPayment"
  | .putBucketTagging => ascii "PutBucketTagging"
  | .putBucketVersioning => ascii "PutBucketVersioning"
  | .putBucketWebsite => ascii "PutBucketWebsite"
  | .putObject => ascii "PutObject"
  | .putObjectAcl => ascii "PutObjectAcl"
  | .putObjectAnnotationOp => ascii "PutObjectAnnotation"
  | .putObjectLegalHold => ascii "PutObjectLegalHold"
  | .putObjectLockConfiguration => ascii "PutObjectLockConfiguration"
  | .putObjectRetention => ascii "PutObjectRetention"
  | .putObjectTagging => ascii "PutObjectTagging"
  | .putPublicAccessBlock => ascii "PutPublicAccessBlock"
  | .renameObject => ascii "RenameObject"
  | .restoreObject => ascii "RestoreObject"
  | .selectObjectContent => ascii "SelectObjectContent"
  | .updateBucketMetadataAnnotationTableConfiguration => ascii "UpdateBucketMetadataAnnotationTableConfiguration"
  | .updateBucketMetadataInventoryTableConfiguration => ascii "UpdateBucketMetadataInventoryTableConfiguration"
  | .updateBucketMetadataJournalTableConfiguration => ascii "UpdateBucketMetadataJournalTableConfiguration"
  | .updateObjectEncryption => ascii "UpdateObjectEncryption"
  | .uploadPart => ascii "UploadPart"
  | .uploadPartCopy => ascii "UploadPartCopy"
  | .writeGetObjectResponse => ascii "WriteGetObjectResponse"

/-- `Operation::has_request_payload` -/
def Operation.hasRequestPayload : Operation → Bool
  | .completeMultipartUpload | .createBucket | .createBucketMetadataConfiguration
  | .createBucketMetadataTableConfiguration | .deleteObjects | .postObject | .putBucketAbac
  | .putBucketAccelerateConfiguration | .putBucketAcl | .putBucketAnalyticsConfiguration
  | .putBucketCors | .putBucketEncryption | .putBucketIntelligentTieringConfiguration
  | .putBucketInventoryConfiguration | .putBucketLifecycleConfiguration | .putBucketLogging
  | .putBucketMetricsConfiguration | .putBucketNotificationConfiguration
  | .putBucketOwnershipControls | .putBucketPolicy | .putBucketReplication
  | .putBucketRequestPayment | .putBucketTagging | .putBucketVersioning | .putBucketWebsite
  | .putObject | .putObjectAcl | .putObjectAnnotationOp | .putObjectLegalHold
  | .putObjectLockConfiguration | .putObjectRetention | .putObjectTagging | .putPublicAccessBlock
  | .restoreObject | .selectObjectContent | .updateBucketMetadataAnnotationTableConfiguration
  | .updateBucketMetadataInventoryTableConfiguration
  | .updateBucketMetadataJournalTableConfiguration | .updateObjectEncryption | .uploadPart
  | .writeGetObjectResponse => true
  | _ => false

end S3s.Routing
